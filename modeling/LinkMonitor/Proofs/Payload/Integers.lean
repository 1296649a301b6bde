import LinkMonitor.Proofs.Payload.Printing
import Mathlib.Tactic.Ring

/-!
# Fields that hold whole numbers

The bytes of such a field are a numeral in base 256, the least significant byte first.  A field of
so many bytes has as many values as there are numerals.  The unsigned kinds take the numeral for
what it is, and the signed kinds take away the number of all numerals if the highest bit is set, so
that no two numerals have a value in common, and each value is in the range of its kind
(`valueOf_eq_exact_iff`).
-/

namespace LinkMonitor.Payload

open LinkMonitor.Text

/-! ## Numerals in base 256 -/

theorem littleEndian_toLittleEndian (width n : Nat) :
    littleEndian (toLittleEndian width n) = n % 2 ^ (8 * width) := by
  induction width generalizing n with
  | zero => simp [toLittleEndian, littleEndian, Nat.mod_one]
  | succ width ih =>
      have hbase : 2 ^ (8 * (width + 1)) = 256 * 2 ^ (8 * width) := by ring
      rw [toLittleEndian, littleEndian, ih, hbase, Nat.mod_mul, UInt8.toNat_ofNat']

theorem toLittleEndian_littleEndian (bs : List UInt8) :
    toLittleEndian bs.length (littleEndian bs) = bs := by
  induction bs with
  | nil => rfl
  | cons b bs ih =>
      have hb := b.toNat_lt
      have hhigh : (b.toNat + 256 * littleEndian bs) / 256 = littleEndian bs := by omega
      have hlow : UInt8.ofNat (b.toNat + 256 * littleEndian bs) = b := by
        rw [← UInt8.toNat_inj, UInt8.toNat_ofNat']
        omega
      rw [List.length_cons, toLittleEndian, littleEndian, hhigh, hlow, ih]

/-! ## Two's complement -/

section TwosComplement

variable {bytes n : Nat}

theorem two_pow_bits (hbytes : 0 < bytes) : 2 ^ (8 * bytes) = 2 * 2 ^ (8 * bytes - 1) := by
  rw [← Nat.pow_succ']
  congr 1
  omega

theorem range_twosComplement (hbytes : 0 < bytes) (hn : n < 2 ^ (8 * bytes)) :
    -2 ^ (8 * bytes - 1) ≤ twosComplement bytes n ∧
      twosComplement bytes n < 2 ^ (8 * bytes - 1) := by
  have hbits := two_pow_bits hbytes
  simp only [twosComplement, Nat.one_shiftLeft, hbits] at hn ⊢
  generalize hhalf : 2 ^ (8 * bytes - 1) = half at *
  have hhalf' : (2 : Int) ^ (8 * bytes - 1) = half := by
    rw [← hhalf]
    norm_cast
  rw [hhalf']
  split <;> omega

theorem twosComplement_emod (hn : n < 2 ^ (8 * bytes)) :
    twosComplement bytes n % 2 ^ (8 * bytes) = n := by
  have hrange : (n : Int) < 2 ^ (8 * bytes) := by exact_mod_cast hn
  unfold twosComplement
  split
  · exact Int.emod_eq_of_lt (by omega) hrange
  · rw [Nat.one_shiftLeft, Nat.cast_pow, Nat.cast_ofNat, Int.sub_emod_right]
    exact Int.emod_eq_of_lt (by omega) hrange

end TwosComplement

/-! ## Values and bytes -/

theorem Width.bytes_pos (w : Width) : 0 < w.bytes := by
  cases w <;> decide

namespace Kind

/-- The letters of the kinds, each with the number of bytes that a field takes. -/
theorem map_width_ofCode?_eq_some_iff {c : Char} {n : Nat} :
    (ofCode? c).map width = some n ↔ (c, n) ∈
      [('c', 1), ('C', 1), ('g', 2), ('G', 2), ('l', 4), ('L', 4), ('q', 8), ('Q', 8), ('f', 4),
        ('d', 8)] := by
  unfold ofCode?
  split <;> simp_all [width, eq_comm]

/-- The kinds of field that hold whole numbers. -/
def IsWhole : Kind → Prop
  | .unsigned _ | .signed _ => True
  | .single | .double => False

/-- The whole numbers that fields of a kind hold. -/
def Holds : Kind → Int → Prop
  | .unsigned w, v => 0 ≤ v ∧ v < 2 ^ (8 * w.bytes)
  | .signed w, v => -2 ^ (8 * w.bytes - 1) ≤ v ∧ v < 2 ^ (8 * w.bytes - 1)
  | .single, _ | .double, _ => False

instance : (k : Kind) → Decidable k.IsWhole
  | .unsigned _ | .signed _ => inferInstanceAs (Decidable True)
  | .single | .double => inferInstanceAs (Decidable False)

instance : (k : Kind) → (v : Int) → Decidable (k.Holds v)
  | .unsigned _, _ | .signed _, _ => inferInstanceAs (Decidable (_ ∧ _))
  | .single, _ | .double, _ => inferInstanceAs (Decidable False)

/-- The bytes of a field that holds a whole number, in two's complement if it is negative. -/
def bytesOf (k : Kind) (v : Int) : List UInt8 :=
  toLittleEndian k.width (v % 2 ^ (8 * k.width)).toNat

variable {k : Kind} {v : Int}

@[simp] theorem length_bytesOf (k : Kind) (v : Int) : (k.bytesOf v).length = k.width :=
  length_toLittleEndian _ _

theorem littleEndian_bytesOf (k : Kind) (v : Int) :
    (littleEndian (k.bytesOf v) : Int) = v % 2 ^ (8 * k.width) := by
  have hnonneg : 0 ≤ v % 2 ^ (8 * k.width) := Int.emod_nonneg _ (pow_ne_zero _ (by decide))
  rw [bytesOf, littleEndian_toLittleEndian]
  push_cast
  rw [Int.toNat_of_nonneg hnonneg, Int.emod_emod_of_dvd _ (dvd_refl _)]

/-- No two values of a kind have the same residue. -/
theorem Holds.eq_of_emod_eq {v' : Int} (h : k.Holds v) (h' : k.Holds v')
    (hmod : v % 2 ^ (8 * k.width) = v' % 2 ^ (8 * k.width)) : v = v' := by
  -- The range of a kind is no longer than the modulus.
  have hclose : |v - v'| < 2 ^ (8 * k.width) := by
    cases k with
    | unsigned w =>
        simp only [Holds, width_unsigned] at h h' ⊢
        exact abs_lt.mpr ⟨by omega, by omega⟩
    | signed w =>
        have hbits : (2 : Int) ^ (8 * w.bytes) = 2 * 2 ^ (8 * w.bytes - 1) := by
          exact_mod_cast two_pow_bits w.bytes_pos
        simp only [Holds, width_signed, hbits] at h h' ⊢
        exact abs_lt.mpr ⟨by omega, by omega⟩
    | single | double => exact h.elim
  have hdvd : (2 : Int) ^ (8 * k.width) ∣ v - v' :=
    Int.dvd_of_emod_eq_zero (Int.emod_eq_emod_iff_emod_sub_eq_zero.mp hmod)
  exact sub_eq_zero.mp (Int.eq_zero_of_abs_lt_dvd hdvd hclose)

theorem exists_valueOf_eq_exact (hk : k.IsWhole) {bs : List UInt8} (hbs : bs.length = k.width) :
    ∃ v, k.valueOf bs = .exact v ∧ k.Holds v ∧ v % 2 ^ (8 * k.width) = littleEndian bs := by
  have hlt : littleEndian bs < 2 ^ (8 * k.width) := by
    have h := littleEndian_lt bs
    rwa [Nat.one_shiftLeft, hbs] at h
  have hlt' : (littleEndian bs : Int) < 2 ^ (8 * k.width) := by exact_mod_cast hlt
  cases k with
  | unsigned w =>
      rw [width_unsigned] at hlt' ⊢
      exact ⟨_, rfl, ⟨Int.natCast_nonneg _, hlt'⟩, Int.emod_eq_of_lt (Int.natCast_nonneg _) hlt'⟩
  | signed w =>
      rw [width_signed] at hlt ⊢
      exact ⟨_, rfl, range_twosComplement w.bytes_pos hlt, twosComplement_emod hlt⟩
  | single | double => exact hk.elim

/-- The bytes of a field and the value that it holds are found from each other. -/
theorem valueOf_eq_exact_iff (hk : k.IsWhole) {bs : List UInt8} (hbs : bs.length = k.width) :
    k.valueOf bs = .exact v ↔ k.Holds v ∧ k.bytesOf v = bs := by
  obtain ⟨v', hvalue, hholds, hmod⟩ := exists_valueOf_eq_exact hk hbs
  constructor
  · intro h
    obtain rfl : v' = v := Number.exact.inj (hvalue.symm.trans h)
    refine ⟨hholds, ?_⟩
    rw [bytesOf, hmod, Int.toNat_natCast, ← hbs]
    exact toLittleEndian_littleEndian bs
  · rintro ⟨hv, rfl⟩
    rw [littleEndian_bytesOf] at hmod
    rw [hvalue, hholds.eq_of_emod_eq hv hmod]

end Kind

/-! ## Reading -/

theorem Number.text_exact_eq_toString (n : Int) : (exact n).text = toString n := by
  cases n with
  | ofNat n => rfl
  | negSucc n =>
      rw [← String.toList_inj]
      simp [signedDecimal, decimal, toString, Int.repr, Nat.repr]

/-- Pieces that are not empty are all shown. -/
theorem joined_of_forall_ne {ps : List String} (hps : ps ≠ []) (h : ∀ p ∈ ps, p ≠ "") :
    joined ps = some (" ".intercalate ps) := by
  have hfilter : ps.filter (· ≠ "") = ps := List.filter_eq_self.mpr (by simpa using h)
  rw [joined, hfilter]
  cases ps with
  | nil => contradiction
  | cons p ps => rfl

section Reading

variable {k : Kind} {bs rest : List UInt8} (hbs : bs.length = k.width)
include hbs

theorem Cursor.takeField_append (position : Nat) :
    (Cursor.mk position (bs ++ rest)).takeField k =
      (.ok (k.valueOf bs), ⟨position + k.width, rest⟩) := by
  have hle : k.width ≤ (Cursor.mk position (bs ++ rest)).remaining := by
    rw [remaining, List.length_append]
    omega
  rw [takeField_of_le hle, advance, ← hbs, List.take_left, List.drop_left]

theorem piece_field_of_exact {v : Int} (hv : k.valueOf bs = .exact v) (position : Nat) :
    (Directive.field k []).piece ⟨position, bs ++ rest⟩ = toString v := by
  rw [Directive.piece, Directive.render, Cursor.takeField_append hbs, hv]
  exact Number.text_exact_eq_toString v

theorem decode_code {v : Int} (hv : k.valueOf bs = .exact v) :
    decode (.singleton k.code) (bs ++ rest) = some (toString v) := by
  have hspec : Directive.ofSpec (.singleton k.code) = [.field k []] := by
    rw [Directive.ofSpec, String.toList_singleton, (isWord_code k).words_eq, Directive.ofWords,
      Kind.ofWord?_code]
    simp [Directive.transforms, Directive.ofWords]
  have hne : toString v ≠ "" := by
    rw [← Number.text_exact_eq_toString, Ne, ← String.toList_inj, Number.text_exact,
      String.toList_ofList]
    exact (isWord_signedDecimal v).ne_nil
  rw [decode, hspec, pieces, pieces, Cursor.start, piece_field_of_exact hbs hv,
    joined_of_forall_ne (List.cons_ne_nil _ _) (by simpa using hne), String.intercalate_singleton]

end Reading

/-- **Whole numbers are written and read without loss.**  The bytes of a number in the range of a
kind are read as that number, whatever stands behind them, and shown as its decimal digits.  And any
bytes of a field are those of the number that is read from them, which is in the range of the
kind. -/
theorem takeField_bytesOf (k : Kind) (hk : k.IsWhole) :
    (∀ v, k.Holds v → ∀ rest,
      (∀ position, (Cursor.mk position (k.bytesOf v ++ rest)).takeField k =
        (.ok (.exact v), ⟨position + k.width, rest⟩)) ∧
      decode (.singleton k.code) (k.bytesOf v ++ rest) = some (toString v)) ∧
    ∀ bs, bs.length = k.width → ∃ v, k.Holds v ∧ k.bytesOf v = bs ∧ ∀ position rest,
      (Cursor.mk position (bs ++ rest)).takeField k =
        (.ok (.exact v), ⟨position + k.width, rest⟩) := by
  constructor
  · intro v hv rest
    have hlength := k.length_bytesOf v
    have hvalue : k.valueOf (k.bytesOf v) = .exact v :=
      (Kind.valueOf_eq_exact_iff hk hlength).mpr ⟨hv, rfl⟩
    refine ⟨?_, decode_code hlength hvalue⟩
    intro position
    rw [Cursor.takeField_append hlength, hvalue]
  · intro bs hbs
    obtain ⟨v, hvalue, hv, -⟩ := Kind.exists_valueOf_eq_exact hk hbs
    refine ⟨v, hv, ((Kind.valueOf_eq_exact_iff hk hbs).mp hvalue).2, ?_⟩
    intro position rest
    rw [Cursor.takeField_append hbs, hvalue]

/-- The least number of 64 bits, with a byte behind it. -/
theorem takeField_bytesOf_least :
    let k : Kind := .signed .w64
    let v : Int := -9223372036854775808
    k.IsWhole ∧ k.Holds v ∧ k.bytesOf v = [0, 0, 0, 0, 0, 0, 0, 0x80] ∧
      decode "Q" [0, 0, 0, 0, 0, 0, 0, 0x80, 0xFF] = some "-9223372036854775808" := by
  intro k v
  have hv : k.Holds v := by decide
  have hbytes : k.bytesOf v = [0, 0, 0, 0, 0, 0, 0, 0x80] := by decide +kernel
  have hdecode := ((takeField_bytesOf k trivial).1 v hv [0xFF]).2
  rw [hbytes] at hdecode
  exact ⟨trivial, hv, hbytes, hdecode⟩

end LinkMonitor.Payload
