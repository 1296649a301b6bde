import LinkMonitor.Proofs.Payload.Characters
import LinkMonitor.Proofs.Payload.Integers

/-!
# Specs that show all of a payload

Whole numbers without transforms, bytes in hexadecimal and literals are shown as words, with a space
between any two, so that they can be told apart in the text however long each of them is
(`words_joined`).  Each word gives back the bytes that it shows (`eq_of_shown_eq`).  If there are no
other directives, and the payload is just as long as all of them need, then it can be found from its
text.
-/

namespace LinkMonitor.Payload

open LinkMonitor.Text

/-! ## Words -/

theorem signedDecimal_injective : Function.Injective signedDecimal := by
  intro m n h
  have hread := congrArg integer? h
  rw [integer?_signedDecimal, integer?_signedDecimal] at hread
  exact Option.some.inj hread

theorem hexByte_injective : Function.Injective hexByte := by
  intro b b' h
  have hread := congrArg (natural? 16) h
  rw [natural?_hexByte, natural?_hexByte] at hread
  exact UInt8.toNat_inj.mp (Option.some.inj hread)

theorem hexBytes_injective : Function.Injective hexBytes := by
  intro bs bs' h
  induction bs generalizing bs' with
  | nil =>
      have hlength := congrArg List.length h
      rw [length_hexBytes, length_hexBytes] at hlength
      exact (List.eq_nil_of_length_eq_zero (by simpa using hlength.symm)).symm
  | cons b bs ih =>
      cases bs' with
      | nil => simp [hexByte] at h
      | cons b' bs' =>
          rw [hexBytes_cons, hexBytes_cons] at h
          obtain ⟨hbyte, hbytes⟩ := List.append_inj h rfl
          rw [hexByte_injective hbyte, ih hbytes]

theorem isWord_hexBytes {bs : List UInt8} (h : bs ≠ []) : IsWord isSpecBlank (hexBytes bs) := by
  refine ⟨?_, ?_⟩
  · exact fun hnil ↦ h (hexBytes_injective hnil)
  · intro c hc
    obtain ⟨b, -, hc⟩ := List.mem_flatMap.mp hc
    have hrange := range_of_mem_hexByte hc
    exact isSpecBlank_eq_false_of_range (by omega)

/-- Pieces that are words are the words of the text. -/
theorem words_joined {ps : List String} (h : ∀ p ∈ ps, IsWord isSpecBlank p.toList) :
    words isSpecBlank ((joined ps).getD "").toList = ps.map String.toList := by
  cases ps with
  | nil => rfl
  | cons p ps =>
      have hne : ∀ p' ∈ p :: ps, p' ≠ "" := by
        rintro p' hp' rfl
        exact (h _ hp').ne_nil rfl
      rw [joined_of_forall_ne (List.cons_ne_nil p ps) hne, Option.getD_some,
        String.toList_intercalate]
      exact words_intercalate rfl (List.forall_mem_map.mpr h)

theorem eq_of_joined_eq {ps qs : List String} (hps : ∀ p ∈ ps, IsWord isSpecBlank p.toList)
    (hqs : ∀ q ∈ qs, IsWord isSpecBlank q.toList) (h : joined ps = joined qs) : ps = qs := by
  have hwords : ps.map String.toList = qs.map String.toList := by
    rw [← words_joined hps, ← words_joined hqs, h]
  exact (List.map_inj_right fun _ _ ↦ String.toList_inj.mp).mp hwords

/-! ## Directives -/

namespace Directive

/-- What a directive of this kind shows has all that it has read. -/
def IsLossless : Directive → Prop
  | .field k ts => k.IsWhole ∧ ts = []
  | .hex _ | .literal _ => True
  | .ascii _ => False

instance : (d : Directive) → Decidable d.IsLossless
  | .field k ts => decidable_of_iff (k.IsWhole ∧ ts.isEmpty) (by simp [IsLossless])
  | .hex _ | .literal _ => inferInstanceAs (Decidable True)
  | .ascii _ => inferInstanceAs (Decidable False)

variable {d : Directive} {bs : List UInt8}

theorem exists_shown_of_isLossless (hd : d.IsLossless) (hform : d.WellFormed)
    (hbs : bs.length = d.needed) :
    ∃ text, d.shown bs = .ok text ∧ IsWord isSpecBlank text.toList := by
  cases d with
  | field k ts =>
      obtain ⟨hk, rfl⟩ := hd
      obtain ⟨v, hv, -⟩ := Kind.exists_valueOf_eq_exact hk hbs
      refine ⟨_, by rw [shown, hv]; rfl, ?_⟩
      rw [Number.text_exact, String.toList_ofList]
      exact isWord_signedDecimal v
  | hex count =>
      refine ⟨_, rfl, ?_⟩
      rw [String.toList_ofList]
      refine isWord_hexBytes ?_
      rintro rfl
      exact hform.1.ne hbs
  | ascii count => exact hd.elim
  | literal text => exact ⟨text, rfl, hform⟩

theorem eq_of_shown_eq {bs' : List UInt8} (hd : d.IsLossless) (hbs : bs.length = d.needed)
    (hbs' : bs'.length = d.needed) (h : d.shown bs = d.shown bs') : bs = bs' := by
  cases d with
  | field k ts =>
      obtain ⟨hk, rfl⟩ := hd
      obtain ⟨v, hv, -⟩ := Kind.exists_valueOf_eq_exact hk hbs
      obtain ⟨v', hv', -⟩ := Kind.exists_valueOf_eq_exact hk hbs'
      have htext : Number.text (.exact v) = Number.text (.exact v') := by
        rw [shown, shown, hv, hv'] at h
        exact Except.ok.inj h
      obtain rfl : v = v' := signedDecimal_injective (String.ofList_injective htext)
      rw [← ((Kind.valueOf_eq_exact_iff hk hbs).mp hv).2,
        ((Kind.valueOf_eq_exact_iff hk hbs').mp hv').2]
  | hex count =>
      have htext := Except.ok.inj h
      exact hexBytes_injective (String.ofList_injective htext)
  | ascii count => exact hd.elim
  | literal text => rw [List.eq_nil_of_length_eq_zero hbs, List.eq_nil_of_length_eq_zero hbs']

variable {c : Cursor}

theorem IsLossless.ne_ascii (hd : d.IsLossless) (count : Option Nat) : d ≠ .ascii count := by
  rintro rfl
  exact hd

theorem IsLossless.after_eq (hd : d.IsLossless) (h : d.needed ≤ c.remaining) :
    d.after c = c.advance d.needed := by
  rw [after, render_of_le h, extent_eq_needed (hd.ne_ascii none)]

theorem shown_eq_piece (hd : d.IsLossless) (hform : d.WellFormed) (h : d.needed ≤ c.remaining) :
    d.shown (c.unread.take d.needed) = .ok (d.piece c) ∧ IsWord isSpecBlank (d.piece c).toList := by
  have hlength : (c.unread.take d.needed).length = d.needed := List.length_take_of_le h
  obtain ⟨text, htext, hword⟩ := exists_shown_of_isLossless hd hform hlength
  have hrender : (d.render c).1 = .ok text := by
    rw [render_of_le h, extent_eq_needed (hd.ne_ascii none), htext]
  have hpiece : d.piece c = text := by rw [piece, hrender]
  rw [hpiece]
  exact ⟨htext, hword⟩

end Directive

/-! ## Payloads -/

section Pieces

variable {ds : List Directive} (hform : ∀ d ∈ ds, d.WellFormed) (hds : ∀ d ∈ ds, d.IsLossless)
include hform hds

theorem isWord_of_mem_pieces {c : Cursor} (hc : (ds.map Directive.needed).sum ≤ c.remaining) :
    ∀ p ∈ pieces ds c, IsWord isSpecBlank p.toList := by
  induction ds generalizing c with
  | nil => exact fun p hp ↦ absurd hp List.not_mem_nil
  | cons d ds ih =>
      obtain ⟨hd, hds⟩ := List.forall_mem_cons.mp hds
      obtain ⟨hd', hform⟩ := List.forall_mem_cons.mp hform
      rw [List.map_cons, List.sum_cons] at hc
      rw [pieces, hd.after_eq (by omega)]
      refine List.forall_mem_cons.mpr ⟨(Directive.shown_eq_piece hd hd' (by omega)).2, ?_⟩
      exact ih hform hds (by rw [Cursor.remaining_advance]; omega)

/-- What is left to be read is no more than what the directives need. -/
theorem unread_eq_of_pieces_eq {c c' : Cursor} (hc : c.remaining = (ds.map Directive.needed).sum)
    (hc' : c'.remaining = (ds.map Directive.needed).sum) (h : pieces ds c = pieces ds c') :
    c.unread = c'.unread := by
  induction ds generalizing c c' with
  | nil => rw [List.eq_nil_of_length_eq_zero hc, List.eq_nil_of_length_eq_zero hc']
  | cons d ds ih =>
      obtain ⟨hd, hds⟩ := List.forall_mem_cons.mp hds
      obtain ⟨hd', hform⟩ := List.forall_mem_cons.mp hform
      rw [List.map_cons, List.sum_cons] at hc hc'
      have hle : d.needed ≤ c.remaining := by omega
      have hle' : d.needed ≤ c'.remaining := by omega
      -- Both places move on by the same number of bytes, whatever has been read there.
      rw [pieces, pieces, hd.after_eq hle, hd.after_eq hle'] at h
      obtain ⟨hpiece, hpieces⟩ := List.cons.inj h
      have hshown : d.shown (c.unread.take d.needed) = d.shown (c'.unread.take d.needed) := by
        rw [(Directive.shown_eq_piece hd hd' hle).1, (Directive.shown_eq_piece hd hd' hle').1,
          hpiece]
      have hfront : c.unread.take d.needed = c'.unread.take d.needed :=
        Directive.eq_of_shown_eq hd (List.length_take_of_le hle) (List.length_take_of_le hle')
          hshown
      have hrest : (c.advance d.needed).unread = (c'.advance d.needed).unread :=
        ih hform hds (by rw [Cursor.remaining_advance]; omega)
          (by rw [Cursor.remaining_advance]; omega) hpieces
      calc c.unread = c.unread.take d.needed ++ c.unread.drop d.needed :=
            (List.take_append_drop ..).symm
        _ = c'.unread.take d.needed ++ c'.unread.drop d.needed := congrArg₂ _ hfront hrest
        _ = c'.unread := List.take_append_drop ..

end Pieces

/-- **Nothing is lost.**  If a spec has no other directives than whole numbers without transforms,
bytes in hexadecimal and literals, then two payloads of just the length that these need are the same
if their texts are. -/
theorem decode_injOn {spec : String} (h : ∀ d ∈ Directive.ofSpec spec, d.IsLossless) :
    Set.InjOn (decode spec)
      {p | p.length = ((Directive.ofSpec spec).map Directive.needed).sum} := by
  have hform : ∀ d ∈ Directive.ofSpec spec, d.WellFormed :=
    fun _ ↦ Directive.wellFormed_of_mem_ofSpec
  intro p hp q hq heq
  have hp' : (Cursor.start p).remaining = ((Directive.ofSpec spec).map Directive.needed).sum := hp
  have hq' : (Cursor.start q).remaining = ((Directive.ofSpec spec).map Directive.needed).sum := hq
  have hpieces := eq_of_joined_eq (isWord_of_mem_pieces hform h hp'.ge)
    (isWord_of_mem_pieces hform h hq'.ge) heq
  exact unread_eq_of_pieces_eq hform h hp' hq' hpieces

/-- Numbers of any length, bytes that may look like one, and literals that look like both. -/
theorem decode_injOn_between_numbers :
    let spec := "q x2 C 0 x \\-1 \\Q G"
    (∀ d ∈ Directive.ofSpec spec, d.IsLossless) ∧
      ((Directive.ofSpec spec).map Directive.needed).sum = 14 ∧
      decode spec [1, 0, 0, 0, 0, 0, 0, 0, 0x20, 0x26, 0xFF, 0x00, 0x00, 0x80] =
        some "1 2026 -1 0 00 -1 Q -32768" ∧
      Set.InjOn (decode spec) {p | p.length = 14} := by
  intro spec
  have hlossless : ∀ d ∈ Directive.ofSpec spec, d.IsLossless := by decide +kernel
  have hsum : ((Directive.ofSpec spec).map Directive.needed).sum = 14 := by decide +kernel
  refine ⟨hlossless, hsum, by decide +kernel, ?_⟩
  rw [← hsum]
  exact decode_injOn hlossless

end LinkMonitor.Payload
