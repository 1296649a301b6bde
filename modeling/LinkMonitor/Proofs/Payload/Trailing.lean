import LinkMonitor.Proofs.Payload.Grammar
import LinkMonitor.Proofs.Payload.Layout

/-!
# Bytes behind the last field

A payload may be longer than what its spec asks for, and then the end of it is not looked at.  Only
two kinds of directive can tell that there is more: one that takes all that remains, and one that
lacks bytes as long as there is no more.  Without these, every directive reads the same bytes from
the same place, whatever stands at the end (`Directive.render_followedBy`).

Whether a directive lacks bytes depends on those before it.  But since none of them takes more than
it needs, the payload only has to be as long as all of them together (`forall_not_isShort_iff`).
-/

namespace LinkMonitor.Payload

/-! ## Longer payloads -/

/-- The same place in a payload that goes on with more bytes. -/
def Cursor.followedBy (c : Cursor) (more : List UInt8) : Cursor :=
  ⟨c.position, c.unread ++ more⟩

variable {c : Cursor} {d : Directive} {ds : List Directive} {p : List UInt8}

theorem Cursor.remaining_followedBy (c : Cursor) (more : List UInt8) :
    (c.followedBy more).remaining = c.remaining + more.length :=
  List.length_append

theorem Cursor.advance_followedBy {count : Nat} (h : count ≤ c.remaining) (more : List UInt8) :
    (c.followedBy more).advance count = (c.advance count).followedBy more := by
  have hdrop : (c.unread ++ more).drop count = c.unread.drop count ++ more :=
    List.drop_append_of_le_length h
  simp only [followedBy, advance, hdrop]

namespace Directive

/-- A directive with enough bytes takes no notice of what follows them. -/
theorem render_followedBy (hd : d ≠ .ascii none) (h : d.needed ≤ c.remaining)
    (more : List UInt8) :
    d.render (c.followedBy more) = ((d.render c).1, (d.after c).followedBy more) := by
  have hmore : d.needed ≤ (c.followedBy more).remaining := by
    rw [Cursor.remaining_followedBy]
    omega
  have htake : (c.unread ++ more).take d.needed = c.unread.take d.needed :=
    List.take_append_of_le_length h
  rw [after, render_of_le h, render_of_le hmore, extent_eq_needed hd, extent_eq_needed hd,
    Cursor.advance_followedBy h, Cursor.followedBy, htake]

end Directive

/-! ## Enough bytes -/

theorem forall_not_isShort_cons :
    (∀ r ∈ readings (d :: ds) c, ¬ r.IsShort) ↔
      d.needed ≤ c.remaining ∧ ∀ r ∈ readings ds (d.after c), ¬ r.IsShort := by
  rw [readings, List.forall_mem_cons, Reading.isShort_iff, Nat.not_lt]

/-- No directive lacks bytes if there are as many as all of them need. -/
theorem forall_not_isShort_iff (hds : .ascii none ∉ ds) :
    (∀ r ∈ readings ds c, ¬ r.IsShort) ↔ (ds.map Directive.needed).sum ≤ c.remaining := by
  induction ds generalizing c with
  | nil => simp [readings]
  | cons d ds ih =>
      rw [List.mem_cons, not_or] at hds
      rw [forall_not_isShort_cons, ih hds.2, d.after_eq_advance, Cursor.remaining_advance,
        List.map_cons, List.sum_cons]
      have hconsumed : d.needed ≤ c.remaining → d.consumed c.remaining = d.needed := by
        intro h
        rw [Directive.consumed, if_pos h, Directive.extent_eq_needed (Ne.symm hds.1)]
      constructor
      · rintro ⟨hd, hrest⟩
        rw [hconsumed hd] at hrest
        omega
      · intro h
        have hd : d.needed ≤ c.remaining := by omega
        rw [hconsumed hd]
        omega

/-! ## Payloads -/

/-- Directives with enough bytes show the same of all payloads that begin with these bytes. -/
theorem pieces_followedBy (hds : .ascii none ∉ ds) (h : ∀ r ∈ readings ds c, ¬ r.IsShort)
    (more : List UInt8) : pieces ds (c.followedBy more) = pieces ds c := by
  induction ds generalizing c with
  | nil => rfl
  | cons d ds ih =>
      rw [List.mem_cons, not_or] at hds
      obtain ⟨hd, hrest⟩ := forall_not_isShort_cons.mp h
      have hrender := Directive.render_followedBy (Ne.symm hds.1) hd more
      have hpiece : d.piece (c.followedBy more) = d.piece c :=
        Directive.piece_congr (by rw [hrender])
      have hafter : d.after (c.followedBy more) = (d.after c).followedBy more :=
        congrArg Prod.snd hrender
      rw [pieces_cons, pieces_cons, hpiece, hafter, ih hds.2 hrest]

/-- **Bytes at the end are ignored.**  Take a spec in which no run goes on to the end of the
payload, and a payload in which no directive lacks bytes; that is, one at least as long as all of
them need.  Whatever is put behind it, the text is the same.  Divisions by zero, and runs that show
nothing, are no exception. -/
theorem decode_append_of_not_isShort {spec : String} (hspec : .ascii none ∉ Directive.ofSpec spec) :
    ((∀ r ∈ readings (Directive.ofSpec spec) (.start p), ¬ r.IsShort) ↔
      ((Directive.ofSpec spec).map Directive.needed).sum ≤ p.length) ∧
    ((∀ r ∈ readings (Directive.ofSpec spec) (.start p), ¬ r.IsShort) →
      ∀ more, decode spec (p ++ more) = decode spec p) := by
  refine ⟨forall_not_isShort_iff hspec, ?_⟩
  intro h more
  have hpieces : pieces (Directive.ofSpec spec) (.start (p ++ more)) =
      pieces (Directive.ofSpec spec) (.start p) := pieces_followedBy hspec h more
  rw [decode, hpieces, decode]

/-- A division by zero, a run that begins with a zero, and no byte to spare. -/
theorem decode_append_of_not_isShort_exactly :
    let spec := "c / 0 a2 C x2 \\a"
    let p : List UInt8 := [0x07, 0x00, 0x41, 0xFF, 0xBE, 0xEF]
    .ascii none ∉ Directive.ofSpec spec ∧
      (∀ r ∈ readings (Directive.ofSpec spec) (.start p), ¬ r.IsShort) ∧
      ∀ more, decode spec (p ++ more) = some "? -1 BEEF a" := by
  intro spec p
  have hextent : ∀ d ∈ Directive.ofSpec spec, d.extent 1 = d.needed := by decide +kernel
  have hspec : .ascii none ∉ Directive.ofSpec spec := by
    intro h
    exact absurd (hextent _ h) (by decide)
  have hlength : ((Directive.ofSpec spec).map Directive.needed).sum ≤ p.length := by
    decide +kernel
  obtain ⟨hshort, hdecode⟩ := decode_append_of_not_isShort (p := p) hspec
  refine ⟨hspec, hshort.mpr hlength, ?_⟩
  intro more
  rw [hdecode (hshort.mpr hlength)]
  decide +kernel

end LinkMonitor.Payload
