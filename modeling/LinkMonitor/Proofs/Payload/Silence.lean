import LinkMonitor.Monitor
import LinkMonitor.Proofs.Payload.Layout
import LinkMonitor.Proofs.Payload.Lossless

/-!
# When nothing is shown

Pieces that are empty are left out of the text, and only runs of characters can be empty: a number
has digits or letters, a run in hexadecimal has a byte at least, a literal is a word, and what fails
shows a question mark.  A run of characters is empty if there are no bytes in it, or if the first of
them is a zero (`Reading.piece_eq_empty_iff`).  So there is no text at all just in case the spec has
no other directives than such runs.
-/

namespace LinkMonitor.Payload

open LinkMonitor.Text LinkMonitor.Decimal

/-! ## Numbers -/

theorem signed_ne_nil {negative : Bool} {text : List Char} (h : text ≠ []) :
    Binary.plain.signed negative text ≠ [] := by
  unfold Binary.plain.signed
  split
  · exact List.cons_ne_nil _ _
  · exact h

theorem plain_scientific_ne_nil (s : Scientific) : s.plain ≠ [] := by
  have hdigits : decimal s.digits ≠ [] := Nat.toDigits_ne_nil
  simp only [Scientific.plain]
  split
  · exact List.append_ne_nil_of_left_ne_nil hdigits _
  · split
    · exact List.append_ne_nil_of_right_ne_nil _ (List.cons_ne_nil _ _)
    · exact List.cons_ne_nil _ _

theorem plain_binary_ne_nil (b : Binary) : b.plain ≠ [] := by
  cases b with
  | nan => exact List.cons_ne_nil _ _
  | infinite negative => exact signed_ne_nil (List.cons_ne_nil _ _)
  | finite negative mantissa exponent leading =>
      rw [Binary.plain]
      split
      · exact signed_ne_nil (List.cons_ne_nil _ _)
      · exact signed_ne_nil (plain_scientific_ne_nil _)

theorem Number.text_ne_empty (n : Number) : n.text ≠ "" := by
  cases n with
  | exact n => exact mt String.ofList_eq_empty_iff.mp (isWord_signedDecimal n).ne_nil
  | real x => exact mt String.ofList_eq_empty_iff.mp (plain_binary_ne_nil _)

/-! ## Directives -/

/-- There are no bytes, or the first of them is a zero. -/
def Mute (bs : List UInt8) : Prop := bs = [] ∨ ∃ rest, bs = 0 :: rest

theorem asciiText_eq_nil_iff {bs : List UInt8} : asciiText bs = [] ↔ Mute bs := by
  cases bs with
  | nil => simp [asciiText, Mute]
  | cons b bs =>
      by_cases hb : b = 0
      · simp [asciiText, Mute, hb]
      · simp [asciiText, Mute, hb]

/-- With enough bytes, only a run of characters can show nothing. -/
theorem Directive.shown_eq_empty_iff {d : Directive} (hform : d.WellFormed) {bs : List UInt8}
    (hbs : d.needed ≤ bs.length) :
    d.shown bs = .ok "" ↔ (∃ count, d = .ascii count) ∧ Mute bs := by
  cases d with
  | field k ts =>
      refine iff_of_false ?_ (by simp)
      intro h
      obtain ⟨n, -, hn⟩ := exists_of_map_eq_ok h
      exact n.text_ne_empty hn
  | hex count =>
      refine iff_of_false ?_ (by simp)
      intro h
      have hne : bs ≠ [] := List.ne_nil_of_length_pos (Nat.lt_of_lt_of_le hform.1 hbs)
      exact (isWord_hexBytes hne).ne_nil (String.ofList_eq_empty_iff.mp (Except.ok.inj h))
  | ascii count =>
      rw [shown, Except.ok.injEq, String.ofList_eq_empty_iff, asciiText_eq_nil_iff]
      simp
  | literal text =>
      refine iff_of_false ?_ (by simp)
      intro h
      obtain rfl := Except.ok.inj h
      exact hform.ne_nil rfl

namespace Reading

/-- The bytes that are read, if there are enough. -/
def bytes (r : Reading) : List UInt8 :=
  r.place.unread.take (r.directive.extent r.place.remaining)

/-- What is read is a run of characters, with enough bytes for it, and there is nothing in it to be
shown. -/
structure IsSilent (r : Reading) : Prop where
  directive : ∃ count, r.directive = .ascii count
  not_isShort : ¬ r.IsShort
  mute : Mute r.bytes

/-- What directives with too few bytes, or divisions by zero, show is not empty either. -/
theorem piece_eq_empty_iff {r : Reading} (hform : r.directive.WellFormed) :
    r.piece = "" ↔ r.IsSilent := by
  by_cases h : r.directive.needed ≤ r.place.remaining
  · have hshort : ¬ r.IsShort := fun hs ↦ Nat.not_lt.mpr h (isShort_iff.mp hs)
    have hlength : r.directive.needed ≤ r.bytes.length := by
      have hle : r.directive.extent r.place.remaining ≤ r.place.unread.length :=
        Directive.extent_le h
      rw [bytes, List.length_take_of_le hle]
      exact r.directive.needed_le_extent _
    have hpiece : r.piece = "" ↔ r.directive.shown r.bytes = .ok "" := by
      rw [piece, Directive.piece, Directive.render_of_le h, ← bytes]
      cases r.directive.shown r.bytes with
      | ok text => simp
      | error e => simp [diagnostic]
    rw [hpiece, Directive.shown_eq_empty_iff hform hlength]
    constructor
    · rintro ⟨hrun, hmute⟩
      exact ⟨hrun, hshort, hmute⟩
    · intro hr
      exact ⟨hr.directive, hr.mute⟩
  · have hlt := Nat.not_le.mp h
    refine iff_of_false ?_ fun hr ↦ hr.not_isShort (isShort_iff.mpr hlt)
    rw [piece, Directive.piece, Directive.render_of_lt hlt]
    simp [diagnostic]

end Reading

/-! ## Texts -/

theorem joined_eq_none_iff {ps : List String} : joined ps = none ↔ ∀ p ∈ ps, p = "" := by
  have hfilter : ps.filter (· ≠ "") = [] ↔ ∀ p ∈ ps, p = "" := by
    simp [List.filter_eq_nil_iff]
  rw [← hfilter, joined]
  cases ps.filter (· ≠ "") with
  | nil => simp
  | cons p ps => simp

theorem ne_empty_of_joined_eq_some {ps : List String} {text : String} (h : joined ps = some text) :
    text ≠ "" := by
  unfold joined at h
  cases hshown : ps.filter (· ≠ "") with
  | nil =>
      rw [hshown] at h
      cases h
  | cons p shown =>
      rw [hshown] at h
      obtain rfl := Option.some.inj h
      have hp : p ≠ "" := by
        have hmem : p ∈ ps.filter (· ≠ "") := hshown ▸ List.mem_cons_self ..
        simpa using (List.mem_filter.mp hmem).2
      rw [Ne, ← String.toList_eq_nil_iff, String.toList_intercalate]
      cases shown with
      | nil => simpa using hp
      | cons p' shown => simp [List.intercalate_cons_cons]

/-- No directive of the spec shows anything.  This is so if there are no directives. -/
def ShowsNothing (spec : String) (payload : List UInt8) : Prop :=
  ∀ r ∈ readings (Directive.ofSpec spec) (.start payload), r.IsSilent

variable {spec : String} {payload : List UInt8}

theorem decode_eq_none_iff : decode spec payload = none ↔ ShowsNothing spec payload := by
  rw [decode, joined_eq_none_iff, pieces_eq_map_readings, List.forall_mem_map]
  refine forall₂_congr ?_
  intro r hr
  have hdirective : r.directive ∈ Directive.ofSpec spec := by
    have hmem := List.mem_map_of_mem (f := Reading.directive) hr
    rwa [map_directive_readings] at hmem
  exact Reading.piece_eq_empty_iff (Directive.wellFormed_of_mem_ofSpec hdirective)

theorem exists_decode_eq_some (h : ¬ ShowsNothing spec payload) :
    ∃ text, decode spec payload = some text ∧ text ≠ "" := by
  obtain ⟨text, htext⟩ := Option.ne_none_iff_exists'.mp (mt decode_eq_none_iff.mp h)
  exact ⟨text, htext, ne_empty_of_joined_eq_some htext⟩

section Messages

variable {f : MessageFormat} {m : Message} (h : m.data.length = f.length.toNat)
include h

theorem render_of_decode_eq_some {text : String} (htext : decode f.spec m.data = some text) :
    f.render m = f.name ++ ":  " ++ text := by
  rw [MessageFormat.render, if_pos h, htext]

theorem render_eq_name_iff : f.render m = f.name ↔ ShowsNothing f.spec m.data := by
  rw [← decode_eq_none_iff]
  constructor
  · intro hname
    by_contra hsome
    obtain ⟨text, htext⟩ := Option.ne_none_iff_exists'.mp hsome
    have hlength := congrArg String.length hname
    rw [render_of_decode_eq_some h htext, String.length_append, String.length_append] at hlength
    have hcolon : ":  ".length = 3 := by decide +kernel
    omega
  · intro hnone
    rw [MessageFormat.render, if_pos h, hnone]

end Messages

/-- **When nothing is shown.**  A payload has no text just in case all directives of the spec are
runs of characters that have enough bytes and show none of them, since there are none or the first
is a zero.  Otherwise there is a text, and it is not empty.  A message of the length that its format
has is shown by the bare name in the one case, and by the name and the text in the other. -/
theorem showsNothing_iff (spec : String) (payload : List UInt8) :
    (decode spec payload = none ↔ ShowsNothing spec payload) ∧
    (¬ ShowsNothing spec payload → ∃ text, decode spec payload = some text ∧ text ≠ "") ∧
    ∀ (f : MessageFormat) (m : Message), m.data.length = f.length.toNat →
      (f.render m = f.name ↔ ShowsNothing f.spec m.data) ∧
      (¬ ShowsNothing f.spec m.data → ∃ text, decode f.spec m.data = some text ∧ text ≠ "" ∧
        f.render m = f.name ++ ":  " ++ text) := by
  refine ⟨decode_eq_none_iff, exists_decode_eq_some, ?_⟩
  intro f m h
  refine ⟨render_eq_name_iff h, ?_⟩
  intro hshown
  obtain ⟨text, htext, hne⟩ := exists_decode_eq_some hshown
  exact ⟨text, htext, hne, render_of_decode_eq_some h htext⟩

/-- A run that begins with a zero, and all that remains where nothing does; then the same spec with
a zero that comes too late. -/
theorem showsNothing_iff_of_runs :
    let f : MessageFormat := ⟨⟨1, 2⟩, "Tag", 2, "a2 a"⟩
    let m : Message := ⟨⟨1, 2⟩, [0x00, 0x41]⟩
    let m' : Message := ⟨⟨1, 2⟩, [0x41, 0x00]⟩
    (m.data.length = f.length.toNat ∧ ShowsNothing f.spec m.data ∧ f.render m = "Tag") ∧
      m'.data.length = f.length.toNat ∧ ¬ ShowsNothing f.spec m'.data ∧
        f.render m' = "Tag:  A" := by
  intro f m m'
  have hlength : m.data.length = f.length.toNat := by decide
  have hlength' : m'.data.length = f.length.toNat := by decide
  have hnothing : ShowsNothing f.spec m.data :=
    (showsNothing_iff f.spec m.data).1.mp (by decide +kernel)
  have hshown : ¬ ShowsNothing f.spec m'.data :=
    mt (showsNothing_iff f.spec m'.data).1.mpr (by decide +kernel)
  have hname := ((showsNothing_iff f.spec m.data).2.2 f m hlength).1.mpr hnothing
  obtain ⟨text, htext, -, hrender⟩ := ((showsNothing_iff f.spec m'.data).2.2 f m' hlength').2 hshown
  refine ⟨⟨hlength, hnothing, hname⟩, hlength', hshown, ?_⟩
  have hdecode : decode f.spec m'.data = some "A" := by decide +kernel
  obtain rfl : "A" = text := Option.some.inj (hdecode.symm.trans htext)
  rw [hrender]
  decide +kernel

end LinkMonitor.Payload
