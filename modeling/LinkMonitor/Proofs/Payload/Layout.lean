import LinkMonitor.Proofs.Payload.Reading
import Mathlib.Data.List.Forall2

/-!
# The layout of fields

Where a directive reads depends on the directives before it and on the length of the payload.  What
the bytes are does not matter: a field that divides by zero, a run of characters that ends with a
zero and a piece that is left out all have been read to their end (`SameField`).  Only a lack of
bytes makes a directive stay where it is, and that is a matter of lengths as well.
-/

namespace LinkMonitor.Payload

/-- A directive, and the place where it reads. -/
structure Reading where
  directive : Directive
  place : Cursor

namespace Reading

def result (r : Reading) : Except DecodeError String := (r.directive.render r.place).1

def piece (r : Reading) : String := r.directive.piece r.place

/-- The place behind the bytes that are read. -/
def after (r : Reading) : Cursor := r.directive.after r.place

/-- The directive fails for lack of bytes. -/
def IsShort (r : Reading) : Prop :=
  ∃ needed actual, r.result = .error (.tooShort needed actual)

theorem isShort_iff {r : Reading} : r.IsShort ↔ r.place.remaining < r.directive.needed := by
  constructor
  · rintro ⟨needed, actual, h⟩
    by_contra hle
    rw [result, Directive.render_of_le (Nat.not_lt.mp hle)] at h
    cases Directive.shown_eq_error h
  · intro hlt
    exact ⟨_, _, congrArg Prod.fst (Directive.render_of_lt hlt)⟩

theorem position_after (r : Reading) :
    r.after.position = r.place.position + r.directive.consumed r.place.remaining := by
  rw [after, Directive.after_eq_advance, Cursor.position_advance]

end Reading

/-- The directives of a list, with the places where they read from a given one on. -/
def readings : List Directive → Cursor → List Reading
  | [], _ => []
  | d :: ds, c => ⟨d, c⟩ :: readings ds (d.after c)

theorem pieces_eq_map_readings (ds : List Directive) (c : Cursor) :
    pieces ds c = (readings ds c).map Reading.piece := by
  induction ds generalizing c with
  | nil => rfl
  | cons d ds ih =>
      rw [pieces, ih]
      rfl

theorem map_directive_readings (ds : List Directive) (c : Cursor) :
    (readings ds c).map Reading.directive = ds := by
  induction ds generalizing c with
  | nil => rfl
  | cons d ds ih => rw [readings, List.map_cons, ih]

/-! ## Failures -/

theorem readings_cons_of_lt {d : Directive} {c : Cursor} (h : c.remaining < d.needed)
    (ds : List Directive) : d.piece c = "?" ∧ readings (d :: ds) c = ⟨d, c⟩ :: readings ds c := by
  have hrender := Directive.render_of_lt h
  refine ⟨?_, ?_⟩
  · rw [Directive.piece, hrender]
    rfl
  · rw [readings, Directive.after, hrender]

theorem readings_cons_of_divisionByZero {k : Kind} {ts : List Transform} {c : Cursor} {n : Number}
    (hn : (c.takeField k).1 = .ok n) (h : Transform.applyAll ts n = .error .divisionByZero)
    (ds : List Directive) :
    (Directive.field k ts).piece c = "?" ∧
      readings (.field k ts :: ds) c = ⟨.field k ts, c⟩ :: readings ds (c.advance k.width) := by
  have hwidth : k.width ≤ c.remaining := by
    by_contra hlt
    rw [Cursor.takeField_of_lt (Nat.not_le.mp hlt)] at hn
    cases hn
  have hafter : (Directive.field k ts).after c = c.advance k.width := by
    rw [Directive.after, Directive.render, Cursor.takeField_of_le hwidth]
  refine ⟨?_, ?_⟩
  · have hresult : ((Directive.field k ts).render c).1 =
        ((c.takeField k).1.bind (Transform.applyAll ts)).map Number.text := rfl
    rw [hn, Except.bind, h] at hresult
    rw [Directive.piece, hresult]
    rfl
  · rw [readings, hafter]

/-! ## Two payloads -/

/-- `SameField p q r s`: the directive that reads `p` in `r` is the one that reads `q` in `s`, and
it reads from the same place to the same place.  It lacks bytes in both or in none, and it shows the
same if the payloads have the same bytes there. -/
structure SameField (p q : List UInt8) (r s : Reading) : Prop where
  directive : r.directive = s.directive
  position : r.place.position = s.place.position
  after : r.after.position = s.after.position
  isShort : r.IsShort ↔ s.IsShort
  piece : (∀ i, r.place.position ≤ i → i < r.after.position → p[i]? = q[i]?) → r.piece = s.piece

variable {p q : List UInt8}

theorem take_drop_congr {start count : Nat}
    (h : ∀ i, start ≤ i → i < start + count → p[i]? = q[i]?) :
    (p.drop start).take count = (q.drop start).take count := by
  refine List.ext_getElem? ?_
  intro i
  by_cases hi : i < count
  · rw [List.getElem?_take_of_lt hi, List.getElem?_take_of_lt hi, List.getElem?_drop,
      List.getElem?_drop]
    exact h (start + i) (by omega) (by omega)
  · rw [List.getElem?_take_eq_none (Nat.not_lt.mp hi),
      List.getElem?_take_eq_none (Nat.not_lt.mp hi)]

section SameLength

variable (h : p.length = q.length) {c c' : Cursor} (hc : c.IsIn p) (hc' : c'.IsIn q)
  (hposition : c.position = c'.position)
include h hc hc' hposition

theorem remaining_eq_of_position_eq : c.remaining = c'.remaining := by
  rw [hc.remaining_eq, hc'.remaining_eq, h, hposition]

theorem position_after_eq (d : Directive) : (d.after c).position = (d.after c').position := by
  have hremaining := remaining_eq_of_position_eq h hc hc' hposition
  rw [d.after_eq_advance, d.after_eq_advance, Cursor.position_advance, Cursor.position_advance,
    hposition, hremaining]

theorem sameField_of_position_eq (d : Directive) : SameField p q ⟨d, c⟩ ⟨d, c'⟩ := by
  have hremaining := remaining_eq_of_position_eq h hc hc' hposition
  refine ⟨rfl, hposition, position_after_eq h hc hc' hposition d, ?_, ?_⟩
  · rw [Reading.isShort_iff, Reading.isShort_iff, hremaining]
  · intro hbytes
    simp only [Reading.position_after] at hbytes
    refine Directive.piece_congr (Directive.render_congr hremaining ?_)
    rw [hc.unread, hc'.unread, ← hremaining, ← hposition]
    exact take_drop_congr hbytes

theorem forall₂_readings (ds : List Directive) :
    List.Forall₂ (SameField p q) (readings ds c) (readings ds c') := by
  induction ds generalizing c c' with
  | nil => exact .nil
  | cons d ds ih =>
      refine .cons (sameField_of_position_eq h hc hc' hposition d) ?_
      exact ih (d.isIn_after hc) (d.isIn_after hc') (position_after_eq h hc hc' hposition d)

end SameLength

/-- **The layout of fields depends on the length of the payload.**  Given two payloads of the same
length, each directive of a spec reads from the same place in both and lacks bytes in both or in
none, and what it shows depends on the bytes that it reads.  A directive that lacks bytes shows a
question mark, and the next one reads where it has not.  A field that divides by zero shows a
question mark as well, and the next one reads behind it. -/
theorem sameField_of_length_eq (spec : String) (h : p.length = q.length) :
    (∀ payload, decode spec payload =
      joined ((readings (Directive.ofSpec spec) (.start payload)).map Reading.piece)) ∧
    List.Forall₂ (SameField p q) (readings (Directive.ofSpec spec) (.start p))
      (readings (Directive.ofSpec spec) (.start q)) ∧
    (∀ r : Reading, r.IsShort ↔ r.place.remaining < r.directive.needed) ∧
    (∀ d c, c.remaining < d.needed → ∀ ds,
      d.piece c = "?" ∧ readings (d :: ds) c = ⟨d, c⟩ :: readings ds c) ∧
    (∀ k ts c n, (c.takeField k).1 = .ok n → Transform.applyAll ts n = .error .divisionByZero →
      ∀ ds, (Directive.field k ts).piece c = "?" ∧
        readings (.field k ts :: ds) c = ⟨.field k ts, c⟩ :: readings ds (c.advance k.width)) := by
  refine ⟨?_, ?_, fun r ↦ Reading.isShort_iff, ?_, ?_⟩
  · intro payload
    rw [decode, pieces_eq_map_readings]
  · exact forall₂_readings h (Cursor.isIn_start p) (Cursor.isIn_start q) rfl _
  · exact fun d c hlt ds ↦ readings_cons_of_lt hlt ds
  · exact fun k ts c n hn hzero ds ↦ readings_cons_of_divisionByZero hn hzero ds

/-- A division by zero, characters up to a zero in the one payload and none at all in the other, a
field that lacks a byte, and two smaller fields in its place. -/
theorem sameField_with_lack_of_bytes :
    let spec := "c / 0 a3 l G C"
    let p : List UInt8 := [0x07, 0x41, 0x00, 0x42, 0x01, 0x02, 0xFF]
    let q : List UInt8 := [0x08, 0x00, 0x41, 0x42, 0x01, 0x02, 0x03]
    p.length = q.length ∧
      List.Forall₂ (SameField p q) (readings (Directive.ofSpec spec) (.start p))
        (readings (Directive.ofSpec spec) (.start q)) ∧
      (readings (Directive.ofSpec spec) (.start p)).map (·.place.position) = [0, 1, 4, 4, 6] ∧
      decode spec p = some "? A ? 513 -1" ∧ decode spec q = some "? ? 513 3" := by
  intro spec p q
  have hfields := (sameField_of_length_eq (p := p) (q := q) spec rfl).2.1
  exact ⟨rfl, hfields, by decide +kernel, by decide +kernel, by decide +kernel⟩

end LinkMonitor.Payload
