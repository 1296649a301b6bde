import LinkMonitor.Proofs.Payload.Integers
import Mathlib.Algebra.Field.Rat
import Mathlib.Data.Rat.Cast.Defs
import Mathlib.Tactic.NormNum

/-!
# Transforms of whole numbers

Transforms by whole numbers have exact values: they are rational numbers, and a division by zero is
all that can come between.  The decoder keeps up with them as long as they are whole numbers of 128
bits (`applyAll_of_stayExact`).  Once one is not, it goes on with doubles, and stays with them
(`applyAll_of_not_stayExact`).
-/

namespace LinkMonitor.Payload

/-! ## Exact values -/

/-- A transform by a whole number. -/
structure WholeTransform where
  operator : Operator
  operand : Int
deriving DecidableEq, Repr

/-- The operation on exact values. -/
def Operator.exactly : Operator → ℚ → ℚ → ℚ
  | .mul, x, y => x * y
  | .div, x, y => x / y
  | .add, x, y => x + y
  | .sub, x, y => x - y

/-- A value that is kept exactly. -/
def IsKept (q : ℚ) : Prop := ∃ n : Int, Fits n ∧ q = n

namespace WholeTransform

def toTransform (t : WholeTransform) : Transform := ⟨t.operator, .exact t.operand⟩

def DividesByZero (t : WholeTransform) : Prop := t.operator = .div ∧ t.operand = 0

instance (t : WholeTransform) : Decidable t.DividesByZero := inferInstanceAs (Decidable (_ ∧ _))

/-- The exact value behind a transform. -/
def exactly (q : ℚ) (t : WholeTransform) : ℚ := t.operator.exactly q t.operand

/-- The exact values before the first of some transforms, between any two and behind the last. -/
def exactValues (q : ℚ) (ts : List WholeTransform) : List ℚ := ts.scanl exactly q

/-- All values of a chain of transforms are kept. -/
def StayExact (ts : List WholeTransform) (q : ℚ) : Prop := ∀ r ∈ exactValues q ts, IsKept r

end WholeTransform

theorem Operator.onInts?_eq_some_iff {op : Operator} {a b c : Int} (hb : op = .div → b ≠ 0) :
    op.onInts? a b = some c ↔ op.exactly a b = c := by
  cases op with
  | mul | add | sub =>
      simp only [onInts?, exactly, Option.some.injEq]
      norm_cast
  | div =>
      have hb' : (b : ℚ) ≠ 0 := by exact_mod_cast hb rfl
      rw [exactly, div_eq_iff hb', onInts?]
      norm_cast
      -- The quotient is a whole number if and only if the division leaves no remainder.
      constructor
      · intro h
        split at h
        · rename_i hmod
          obtain rfl := Option.some.inj h
          exact (Int.tdiv_mul_cancel_of_tmod_eq_zero hmod).symm
        · cases h
      · rintro rfl
        rw [Int.mul_tmod_left, if_pos rfl, Int.mul_tdiv_cancel _ (hb rfl)]

/-! ## Single transforms -/

namespace WholeTransform

section Single

variable {t : WholeTransform}

theorem dividesByZero_iff : t.DividesByZero ↔
    t.operator = .div ∧ (Number.exact t.operand).isZero = true := by
  simp [DividesByZero, Number.isZero]

variable (h : ¬ t.DividesByZero)
include h

theorem apply_exact_of_isKept {n w : Int} (hw : exactly n t = w) (hfits : Fits w) :
    (Number.exact n).apply t.operator (.exact t.operand) = .ok (.exact w) := by
  have hints : t.operator.onInts? n t.operand = some w :=
    (Operator.onInts?_eq_some_iff fun hdiv hzero ↦ h ⟨hdiv, hzero⟩).mpr hw
  have hwhole : Number.whole? t.operator (.exact n) (.exact t.operand) = some w := by
    simp [Number.whole?, hints, hfits]
  rw [Number.apply, if_neg (mt dividesByZero_iff.mpr h), hwhole]

theorem apply_exact_of_not_isKept {n : Int} (hw : ¬ IsKept (exactly n t)) :
    ∃ x, (Number.exact n).apply t.operator (.exact t.operand) = .ok (.real x) := by
  have hwhole : Number.whole? t.operator (.exact n) (.exact t.operand) = none := by
    rw [Number.whole?, Option.filter_eq_none_iff]
    intro w hints hfits
    refine hw ⟨w, of_decide_eq_true hfits, ?_⟩
    exact (Operator.onInts?_eq_some_iff fun hdiv hzero ↦ h ⟨hdiv, hzero⟩).mp hints
  rw [Number.apply, if_neg (mt dividesByZero_iff.mpr h), hwhole]
  exact ⟨_, rfl⟩

theorem apply_real (x : Float) :
    ∃ y, (Number.real x).apply t.operator (.exact t.operand) = .ok (.real y) := by
  rw [Number.apply, if_neg (mt dividesByZero_iff.mpr h)]
  exact ⟨_, rfl⟩

end Single

/-! ## Chains of transforms -/

theorem exactValues_cons (q : ℚ) (t : WholeTransform) (ts : List WholeTransform) :
    exactValues q (t :: ts) = q :: exactValues (exactly q t) ts :=
  List.scanl_cons

theorem mem_exactValues_self (q : ℚ) (ts : List WholeTransform) : q ∈ exactValues q ts := by
  cases ts with
  | nil => exact List.mem_singleton_self q
  | cons t ts => exact exactValues_cons q t ts ▸ List.mem_cons_self ..

theorem stayExact_cons {q : ℚ} {t : WholeTransform} {ts : List WholeTransform} :
    StayExact (t :: ts) q ↔ IsKept q ∧ StayExact ts (exactly q t) := by
  rw [StayExact, exactValues_cons]
  exact List.forall_mem_cons

/-- The transforms are applied to a number one after another. -/
def applyAll (ts : List WholeTransform) (n : Number) : Except DecodeError Number :=
  Transform.applyAll (ts.map toTransform) n

theorem applyAll_cons_of_ok {t : WholeTransform} {n m : Number}
    (hn : n.apply t.operator (.exact t.operand) = .ok m) (ts : List WholeTransform) :
    applyAll (t :: ts) n = applyAll ts m := by
  rw [applyAll, List.map_cons, Transform.applyAll_cons, toTransform, hn]
  rfl

section Chain

variable {ts : List WholeTransform}

theorem applyAll_eq_error_iff {n : Number} {e : DecodeError} :
    applyAll ts n = .error e ↔ e = .divisionByZero ∧ ∃ t ∈ ts, t.DividesByZero := by
  simp [applyAll, Transform.applyAll_eq_error_iff, toTransform, dividesByZero_iff]

theorem not_dividesByZero_of_ok {n m : Number} (h : applyAll ts n = .ok m) :
    ∀ t ∈ ts, ¬ t.DividesByZero := by
  intro t ht hzero
  rw [applyAll_eq_error_iff.mpr ⟨rfl, t, ht, hzero⟩] at h
  cases h

variable (h : ∀ t ∈ ts, ¬ t.DividesByZero)
include h

/-- A double stays a double. -/
theorem applyAll_real (x : Float) : ∃ y, applyAll ts (.real x) = .ok (.real y) := by
  induction ts generalizing x with
  | nil => exact ⟨x, rfl⟩
  | cons t ts ih =>
      obtain ⟨ht, hts⟩ := List.forall_mem_cons.mp h
      obtain ⟨y, hy⟩ := apply_real ht x
      rw [applyAll_cons_of_ok hy]
      exact ih hts y

theorem applyAll_of_stayExact {n : Int} (hexact : StayExact ts n) :
    ∃ w : Int, applyAll ts (.exact n) = .ok (.exact w) ∧
      (exactValues n ts).getLast? = some (w : ℚ) := by
  induction ts generalizing n with
  | nil => exact ⟨n, rfl, rfl⟩
  | cons t ts ih =>
      obtain ⟨ht, hts⟩ := List.forall_mem_cons.mp h
      obtain ⟨-, hexact⟩ := stayExact_cons.mp hexact
      obtain ⟨m, hfits, hm⟩ := hexact _ (mem_exactValues_self _ ts)
      rw [hm] at hexact
      obtain ⟨w, hw, hlast⟩ := ih hts hexact
      refine ⟨w, ?_, ?_⟩
      · rw [applyAll_cons_of_ok (apply_exact_of_isKept ht hm hfits), hw]
      · rw [exactValues_cons, hm, List.getLast?_cons, hlast, Option.getD_some]

theorem applyAll_of_not_stayExact {n : Int} (hn : Fits n) (hexact : ¬ StayExact ts n) :
    ∃ x, applyAll ts (.exact n) = .ok (.real x) := by
  induction ts generalizing n with
  | nil =>
      refine absurd ?_ hexact
      intro q hq
      exact ⟨n, hn, List.mem_singleton.mp hq⟩
  | cons t ts ih =>
      obtain ⟨ht, hts⟩ := List.forall_mem_cons.mp h
      -- Up to the first value that is not kept there are whole numbers, and doubles from there on.
      by_cases hkept : IsKept (exactly n t)
      · obtain ⟨m, hfits, hm⟩ := hkept
        rw [applyAll_cons_of_ok (apply_exact_of_isKept ht hm hfits)]
        refine ih hts hfits ?_
        intro hrest
        exact hexact (stayExact_cons.mpr ⟨⟨n, hn, rfl⟩, hm ▸ hrest⟩)
      · obtain ⟨x, hx⟩ := apply_exact_of_not_isKept ht hkept
        rw [applyAll_cons_of_ok hx]
        exact applyAll_real hts x

end Chain

theorem applyAll_append_of_real {ts more : List WholeTransform} {n : Number} {x : Float}
    (hx : applyAll ts n = .ok (.real x)) (h : ∀ t ∈ more, ¬ t.DividesByZero) :
    ∃ y, applyAll (ts ++ more) n = .ok (.real y) := by
  obtain ⟨y, hy⟩ := applyAll_real h x
  refine ⟨y, ?_⟩
  rw [applyAll, Transform.applyAll] at hx ⊢
  rw [List.map_append, List.foldlM_append, hx]
  exact hy

section Outcomes

variable {ts : List WholeTransform} {n : Int} (hn : Fits n)
include hn

theorem applyAll_eq_exact_iff {w : Int} : applyAll ts (.exact n) = .ok (.exact w) ↔
    (∀ t ∈ ts, ¬ t.DividesByZero) ∧ StayExact ts n ∧
      (exactValues n ts).getLast? = some (w : ℚ) := by
  constructor
  · intro hw
    have hdiv := not_dividesByZero_of_ok hw
    have hexact : StayExact ts n := by
      by_contra hnot
      obtain ⟨x, hx⟩ := applyAll_of_not_stayExact hdiv hn hnot
      rw [hx] at hw
      cases hw
    obtain ⟨w', hw', hlast⟩ := applyAll_of_stayExact hdiv hexact
    obtain rfl : w' = w := Number.exact.inj (Except.ok.inj (hw'.symm.trans hw))
    exact ⟨hdiv, hexact, hlast⟩
  · rintro ⟨hdiv, hexact, hlast⟩
    obtain ⟨w', hw', hlast'⟩ := applyAll_of_stayExact hdiv hexact
    have hcast : (w' : ℚ) = w := Option.some.inj (hlast'.symm.trans hlast)
    rw [hw', Int.cast_injective hcast]

theorem exists_applyAll_eq_real_iff : (∃ x, applyAll ts (.exact n) = .ok (.real x)) ↔
    (∀ t ∈ ts, ¬ t.DividesByZero) ∧ ¬ StayExact ts n := by
  constructor
  · rintro ⟨x, hx⟩
    have hdiv := not_dividesByZero_of_ok hx
    refine ⟨hdiv, ?_⟩
    intro hexact
    obtain ⟨w, hw, -⟩ := applyAll_of_stayExact hdiv hexact
    rw [hw] at hx
    cases hx
  · rintro ⟨hdiv, hexact⟩
    exact applyAll_of_not_stayExact hdiv hn hexact

end Outcomes

end WholeTransform

/-! ## Fields -/

theorem Kind.Holds.fits {k : Kind} {v : Int} (h : k.Holds v) : Fits v := by
  unfold Fits
  cases k with
  | unsigned w | signed w =>
      cases w <;> simp only [Holds, Width.bytes] at h <;> constructor <;> omega
  | single | double => exact h.elim

theorem Kind.isWhole_of_valueOf_eq_exact {k : Kind} {bs : List UInt8} {v : Int}
    (h : k.valueOf bs = .exact v) : k.IsWhole := by
  cases k with
  | unsigned _ | signed _ => trivial
  | single | double => cases h

section Field

variable {k : Kind} {c : Cursor} {v : Int} (hv : (c.takeField k).1 = .ok (.exact v))
include hv

/-- What is read as a whole number is one of 128 bits. -/
theorem fits_of_takeField : Fits v := by
  have hle : k.width ≤ c.remaining := by
    by_contra hlt
    rw [Cursor.takeField_of_lt (Nat.not_le.mp hlt)] at hv
    cases hv
  rw [Cursor.takeField_of_le hle] at hv
  have hvalue := Except.ok.inj hv
  have hlength : (c.unread.take k.width).length = k.width := List.length_take_of_le hle
  have hwhole := Kind.isWhole_of_valueOf_eq_exact hvalue
  exact ((Kind.valueOf_eq_exact_iff hwhole hlength).mp hvalue).1.fits

theorem render_field_of_takeField (ts : List Transform) :
    ((Directive.field k ts).render c).1 =
      (Transform.applyAll ts (.exact v)).map Number.text := by
  have hrender : ((Directive.field k ts).render c).1 =
      ((c.takeField k).1.bind (Transform.applyAll ts)).map Number.text := rfl
  rw [hrender, hv]
  rfl

/-- **Transforms of whole numbers are exact.**  A field that holds a whole number is taken through
some transforms by whole numbers.  That fails just in case one of them is a division by zero.
Otherwise the result is exact just in case all values between, the first and the last included, are
whole numbers of 128 bits, and then it is the last of them, and shown as its decimal digits.  In all
other cases it is a double, and further transforms do not make it anything else. -/
theorem applyAll_of_takeField (ts : List WholeTransform) :
    let result := Transform.applyAll (ts.map WholeTransform.toTransform) (.exact v)
    let field := Directive.field k (ts.map WholeTransform.toTransform)
    (field.render c).1 = result.map Number.text ∧
      (∀ e, result = .error e ↔ e = .divisionByZero ∧ ∃ t ∈ ts, t.DividesByZero) ∧
      (∀ w : Int, result = .ok (.exact w) ↔ (∀ t ∈ ts, ¬ t.DividesByZero) ∧
        WholeTransform.StayExact ts v ∧
          (WholeTransform.exactValues v ts).getLast? = some (w : ℚ)) ∧
      (∀ w : Int, result = .ok (.exact w) → field.piece c = toString w) ∧
      ((∃ x, result = .ok (.real x)) ↔
        (∀ t ∈ ts, ¬ t.DividesByZero) ∧ ¬ WholeTransform.StayExact ts v) ∧
      (∀ x, result = .ok (.real x) → ∀ more : List WholeTransform,
        (∀ t ∈ more, ¬ t.DividesByZero) →
          ∃ y, Transform.applyAll ((ts ++ more).map WholeTransform.toTransform) (.exact v) =
            .ok (.real y)) := by
  intro result field
  have hfits := fits_of_takeField hv
  have hrender := render_field_of_takeField hv (ts.map WholeTransform.toTransform)
  refine ⟨hrender, fun e ↦ WholeTransform.applyAll_eq_error_iff,
    fun w ↦ WholeTransform.applyAll_eq_exact_iff hfits, ?_,
    WholeTransform.exists_applyAll_eq_real_iff hfits,
    fun x hx more hmore ↦ WholeTransform.applyAll_append_of_real hx hmore⟩
  intro w hw
  have hshown : (field.render c).1 = .ok (Number.exact w).text :=
    hrender.trans (congrArg (Except.map Number.text) hw)
  rw [Directive.piece, hshown]
  exact Number.text_exact_eq_toString w

end Field

/-- The least number of 128 bits is reached, and shown.  A division by minus one then leads out of
these numbers, and a last one back among them, but not from doubles. -/
theorem applyAll_of_takeField_at_least :
    let c := Cursor.start [0x80]
    let k : Kind := .signed .w8
    let down : WholeTransform := ⟨.mul, 2 ^ 120⟩
    let up : WholeTransform := ⟨.div, -1⟩
    let back : WholeTransform := ⟨.div, 4⟩
    (c.takeField k).1 = .ok (.exact (-128)) ∧
      (Directive.field k [down.toTransform]).piece c =
        "-170141183460469231731687303715884105728" ∧
      WholeTransform.exactValues (-128) [down, up, back] = [-128, -2 ^ 127, 2 ^ 127, 2 ^ 125] ∧
      ∃ x, Transform.applyAll ([down, up, back].map WholeTransform.toTransform) (.exact (-128)) =
        .ok (.real x) := by
  intro c k down up back
  have hv : (c.takeField k).1 = .ok (.exact (-128)) := rfl
  have hvalues : WholeTransform.exactValues (-128) [down, up, back] =
      [-128, -2 ^ 127, 2 ^ 127, 2 ^ 125] := by
    norm_num [WholeTransform.exactValues, WholeTransform.exactly, Operator.exactly, down, up, back]
  have hpiece := (applyAll_of_takeField hv [down]).2.2.2.1 (-2 ^ 127) rfl
  have hleft : ¬ WholeTransform.StayExact [down, up, back] (-128) := by
    intro hexact
    obtain ⟨n, hfits, hn⟩ := hexact (2 ^ 127) (by simp [hvalues])
    obtain rfl : n = 2 ^ 127 := by exact_mod_cast hn.symm
    exact absurd hfits (by decide)
  have hreal := (applyAll_of_takeField hv [down, up, back]).2.2.2.2.1.mpr
    ⟨by decide, by exact_mod_cast hleft⟩
  exact ⟨hv, hpiece, hvalues, hreal⟩

end LinkMonitor.Payload
