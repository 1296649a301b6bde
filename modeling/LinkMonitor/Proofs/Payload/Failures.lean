import LinkMonitor.Proofs.Decimal.Zeros
import LinkMonitor.Proofs.Payload.Layout
import LinkMonitor.Proofs.Payload.Transforms

/-!
# Which directives fail

A directive fails if there are too few bytes for it, and a field also if one of its transforms is a
division by zero (`Reading.fails_iff`).  Both can be told without a look at the bytes: the one from
their number, and the other from the spec.  What the transforms before a division have made of the
value does not matter, be it a whole number, a double, an infinite one or none at all.  Neither does
it matter whether the divisor is looked at before or after it is made a double, since it is zero in
both cases or in none (`Number.isZero_iff_toFloat`).
-/

namespace LinkMonitor.Payload

open LinkMonitor.Decimal

/-! ## Divisors -/

/-- The whole number zero, or a double with the bits of the one zero or of the other. -/
def Number.IsZero : Number → Prop
  | .exact n => n = 0
  | .real x => x.toBits = 0 ∨ x.toBits = 0x8000000000000000

instance : (n : Number) → Decidable n.IsZero
  | .exact n => inferInstanceAs (Decidable (n = 0))
  | .real _ => inferInstanceAs (Decidable (_ ∨ _))

theorem Number.isZero_iff {n : Number} : n.isZero = true ↔ n.IsZero := by
  cases n with
  | exact n => exact beq_iff_eq
  | real x => exact beq_zero_iff x

/-- No number becomes zero when it becomes a double. -/
theorem Number.isZero_iff_toFloat {n : Number} : n.IsZero ↔ (n.toFloat == 0.0) = true := by
  cases n with
  | exact n => exact (ofInt_beq_zero_iff n).symm
  | real x => exact (beq_zero_iff x).symm

def Transform.DividesByZero (t : Transform) : Prop := t.operator = .div ∧ t.operand.IsZero

/-! ## Directives -/

namespace Directive

/-- What makes a directive fail if so many bytes remain. -/
def Degrades (remaining : Nat) : Directive → Prop
  | .field k ts => remaining < k.width ∨ ∃ t ∈ ts, t.DividesByZero
  | .hex count => remaining < count
  | .ascii (some count) => remaining < count
  | .ascii none => False
  | .literal _ => False

/-- Whether a directive divides by zero. -/
def DividesByZero : Directive → Prop
  | .field _ ts => ∃ t ∈ ts, t.DividesByZero
  | _ => False

theorem degrades_iff {remaining : Nat} {d : Directive} :
    d.Degrades remaining ↔ remaining < d.needed ∨ d.DividesByZero := by
  cases d with
  | field k ts => rfl
  | hex count => simp [Degrades, needed, DividesByZero]
  | ascii count => cases count <;> simp [Degrades, needed, DividesByZero]
  | literal text => simp [Degrades, needed, DividesByZero]

theorem exists_shown_eq_error_iff {d : Directive} {bs : List UInt8} :
    (∃ e, d.shown bs = .error e) ↔ d.DividesByZero := by
  cases d with
  | field k ts =>
      have hmap : ∀ {x : Except DecodeError Number} {e : DecodeError},
          x.map Number.text = .error e ↔ x = .error e := by
        intro x e
        cases x <;> simp [Except.map]
      simp [shown, hmap, Transform.applyAll_eq_error_iff, DividesByZero, Transform.DividesByZero,
        Number.isZero_iff]
  | hex _ | ascii _ | literal _ => simp [shown, DividesByZero]

end Directive

/-! ## Places -/

namespace Reading

/-- The directive fails, for whatever reason. -/
def Fails (r : Reading) : Prop := ∃ e, r.result = .error e

theorem fails_iff {r : Reading} : r.Fails ↔ r.IsShort ∨ r.directive.DividesByZero := by
  rw [isShort_iff]
  by_cases h : r.directive.needed ≤ r.place.remaining
  · rw [Fails, result, Directive.render_of_le h, Directive.exists_shown_eq_error_iff]
    simp [Nat.not_lt.mpr h]
  · have hlt := Nat.not_le.mp h
    rw [Fails, result, Directive.render_of_lt hlt]
    simp [hlt]

theorem Fails.piece_eq {r : Reading} (h : r.Fails) : r.piece = "?" := by
  obtain ⟨e, he⟩ := h
  have hresult : (r.directive.render r.place).1 = .error e := he
  rw [piece, Directive.piece, hresult]
  rfl

theorem fails_iff_degrades {r : Reading} : r.Fails ↔ r.directive.Degrades r.place.remaining := by
  rw [fails_iff, isShort_iff, Directive.degrades_iff]

end Reading

theorem SameField.fails_iff {p q : List UInt8} {r s : Reading} (h : SameField p q r s) :
    r.Fails ↔ s.Fails := by
  rw [Reading.fails_iff, Reading.fails_iff, h.isShort, h.directive]

/-- **What fails is known beforehand.**  The text of a payload is put together from the pieces of
the directives of the spec.  A numeric field fails just in case fewer bytes remain than it has, or
it is divided by a number that is zero; a run of so many bytes just in case fewer remain; and all
that remain, and a literal, never.  What fails shows a question mark.  So the same directives fail
for all payloads of the same length.  A number is zero whether it is looked at as it stands in the
spec or as a double. -/
theorem fails_iff_of_mem_readings (spec : String) (p : List UInt8) :
    decode spec p =
        joined ((readings (Directive.ofSpec spec) (.start p)).map Reading.piece) ∧
      (∀ r ∈ readings (Directive.ofSpec spec) (.start p),
        (r.Fails ↔ r.directive.Degrades r.place.remaining) ∧ (r.Fails → r.piece = "?")) ∧
      (∀ q : List UInt8, p.length = q.length →
        List.Forall₂ (fun r s ↦ r.directive = s.directive ∧ (r.Fails ↔ s.Fails))
          (readings (Directive.ofSpec spec) (.start p))
          (readings (Directive.ofSpec spec) (.start q))) ∧
      ∀ n : Number, n.IsZero ↔ (n.toFloat == 0.0) = true := by
  refine ⟨?_, ?_, ?_, fun n ↦ Number.isZero_iff_toFloat⟩
  · rw [decode, pieces_eq_map_readings]
  · exact fun r _ ↦ ⟨Reading.fails_iff_degrades, Reading.Fails.piece_eq⟩
  · intro q h
    have hfields := forall₂_readings h (Cursor.isIn_start p) (Cursor.isIn_start q) rfl
      (Directive.ofSpec spec)
    exact hfields.imp fun _ _ hsame ↦ ⟨hsame.directive, hsame.fails_iff⟩

/-- A number and what is no number at all, both divided by a zero of negative sign after they have
been taken out of range, a division by one, and a run that lacks a byte. -/
theorem fails_iff_of_mem_readings_divided :
    let spec := "d * 1e308 * 1e308 / -0.0 c / 1 x2 a"
    let p : List UInt8 := [0, 0, 0, 0, 0, 0, 0xF0, 0x3F, 0x07, 0x41]
    let q : List UInt8 := [0, 0, 0, 0, 0, 0, 0xF8, 0x7F, 0x08, 0x00]
    p.length = q.length ∧
      List.Forall₂ (fun r s ↦ r.directive = s.directive ∧ (r.Fails ↔ s.Fails))
        (readings (Directive.ofSpec spec) (.start p))
        (readings (Directive.ofSpec spec) (.start q)) ∧
      decode spec p = some "? 7 ? A" ∧ decode spec q = some "? 8 ?" := by
  intro spec p q
  have hsame := (fails_iff_of_mem_readings spec p).2.2.1 q rfl
  exact ⟨rfl, hsame, by decide +kernel, by decide +kernel⟩

end LinkMonitor.Payload
