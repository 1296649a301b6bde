import LinkMonitor.Text.Blank
import LinkMonitor.Text.Hex

/-!
# Numbers that are written and read again

Decimal numbers and pairs of hexadecimal digits read back as what was written.  For numbers of any
size this is an induction over the digits from the last one on, as `Nat.toDigits` takes them off.
What is written are visible characters, none of them a blank.
-/

namespace LinkMonitor.Text

/-! ## Digits -/

/-- The digits that `Nat.toDigits` writes in bases up to sixteen. -/
theorem digit?_digitChar {base d : Nat} (hd : d < base) (hbase : base ≤ 16) :
    digit? base d.digitChar = some d := by
  have hread : ∀ d < 16, digit? 16 d.digitChar = some d := by decide
  have hvalue := hread d (by omega)
  simp only [digit?, Option.filter_eq_some_iff] at hvalue ⊢
  exact ⟨hvalue.1, by simpa using hd⟩

theorem digit?_hexDigit {d : Nat} (hd : d < 16) : digit? 16 (hexDigit d) = some d := by
  have hread : ∀ d < 16, digit? 16 (hexDigit d) = some d := by decide
  exact hread d hd

/-- Digits stand between `0` and `f` in ASCII, so that none of them is a sign. -/
theorem range_of_digit?_eq_some {base d : Nat} {c : Char} (h : digit? base c = some d) :
    0x30 ≤ c.toNat ∧ c.toNat ≤ 0x66 := by
  simp only [digit?, Option.filter_eq_some_iff] at h
  obtain ⟨h, -⟩ := h
  have hle : ∀ a b : Char, a ≤ b ↔ a.toNat ≤ b.toNat := fun _ _ ↦ Iff.rfl
  simp only [hle] at h
  split at h
  · rename_i hc
    have : '9'.toNat = 0x39 := rfl
    exact ⟨hc.1, by omega⟩
  · split at h
    · rename_i hc
      have : 'a'.toNat = 0x61 := rfl
      have : 'f'.toNat = 0x66 := rfl
      omega
    · split at h
      · rename_i hc
        have : 'A'.toNat = 0x41 := rfl
        have : 'F'.toNat = 0x46 := rfl
        omega
      · cases h

/-! ## Numbers -/

theorem extend?_toDigits {base : Nat} (hlt : 1 < base) (hle : base ≤ 16) (n : Nat) :
    extend? base 0 (Nat.toDigits base n) = some n := by
  induction n using Nat.base_induction base hlt with
  | single n hn =>
      simp [Nat.toDigits_of_lt_base hn, extend?, digit?_digitChar hn hle]
  | digit n d hd hn ih =>
      rw [← Nat.toDigits_append_toDigits hlt hn hd, extend?_append, ih,
        Nat.toDigits_of_lt_base hd]
      simp [extend?, digit?_digitChar hd hle]

/-- Decimal numbers read back. -/
theorem natural?_decimal (n : Nat) : natural? 10 (decimal n) = some n := by
  obtain ⟨c, cs, hcs⟩ := List.exists_cons_of_ne_nil (Nat.toDigits_ne_nil (n := n) (b := 10))
  rw [decimal, hcs, natural?_cons, ← hcs]
  exact extend?_toDigits (by omega) (by omega) n

theorem exists_digit?_of_extend?_eq_some {base n m : Nat} {cs : List Char}
    (h : extend? base n cs = some m) {c : Char} (hc : c ∈ cs) :
    ∃ d, digit? base c = some d := by
  induction cs generalizing n with
  | nil => simp at hc
  | cons c' cs ih =>
      simp only [extend?, Option.bind_eq_some_iff] at h
      obtain ⟨d, hd, h⟩ := h
      rcases List.mem_cons.mp hc with rfl | hc
      · exact ⟨d, hd⟩
      · exact ih h hc

/-- All characters that a number is read from are digits. -/
theorem exists_digit?_of_natural?_eq_some {base n : Nat} {cs : List Char}
    (h : natural? base cs = some n) {c : Char} (hc : c ∈ cs) :
    ∃ d, digit? base c = some d := by
  cases cs with
  | nil => simp at hc
  | cons c' cs =>
      rw [natural?_cons] at h
      exact exists_digit?_of_extend?_eq_some h hc

/-- A number that is read without a sign has no sign at its front. -/
theorem ne_cons_of_natural?_eq_some {base n : Nat} {cs : List Char}
    (h : natural? base cs = some n) {c : Char} (hc : c.toNat < 0x30) (rest : List Char) :
    cs ≠ c :: rest := by
  rintro rfl
  obtain ⟨d, hd⟩ := exists_digit?_of_natural?_eq_some h (List.mem_cons_self ..)
  have := (range_of_digit?_eq_some hd).1
  omega

/-- Digits without a sign are read up to the bound. -/
theorem bounded?_eq_natural? {base bound n : Nat} {cs : List Char}
    (h : natural? base cs = some n) (hn : n < bound) : bounded? base bound cs = some n := by
  have hdigits : bounded? base bound cs = (natural? base cs).filter (· < bound) := by
    unfold bounded?
    split
    · exact absurd rfl (ne_cons_of_natural?_eq_some h (by decide) _)
    · rfl
  simp [hdigits, h, hn]

/-- A number below a bound is read of its digits, or of its digits behind a plus sign. -/
theorem bounded?_eq_some_iff {base bound n : Nat} {cs : List Char} :
    bounded? base bound cs = some n ↔
      n < bound ∧
        (natural? base cs = some n ∨ ∃ ds, cs = '+' :: ds ∧ natural? base ds = some n) := by
  constructor
  · intro h
    unfold bounded? at h
    split at h
    · rename_i ds
      obtain ⟨hds, hn⟩ := Option.filter_eq_some_iff.mp h
      exact ⟨of_decide_eq_true hn, .inr ⟨ds, rfl, hds⟩⟩
    · obtain ⟨hcs, hn⟩ := Option.filter_eq_some_iff.mp h
      exact ⟨of_decide_eq_true hn, .inl hcs⟩
  · rintro ⟨hn, h | ⟨ds, rfl, h⟩⟩
    · exact bounded?_eq_natural? h hn
    · simp [bounded?, h, hn]

theorem integer?_eq_natural? {n : Nat} {cs : List Char} (h : natural? 10 cs = some n) :
    integer? cs = some n := by
  unfold integer?
  split
  · exact absurd rfl (ne_cons_of_natural?_eq_some h (by decide) _)
  · exact absurd rfl (ne_cons_of_natural?_eq_some h (by decide) _)
  · simp [h]

/-- Whole numbers read back. -/
theorem integer?_signedDecimal (n : Int) : integer? (signedDecimal n) = some n := by
  cases n with
  | ofNat n => exact integer?_eq_natural? (natural?_decimal n)
  | negSucc n => simp [signedDecimal, integer?, natural?_decimal, Int.negSucc_eq]

theorem natural?_hexByte (b : UInt8) : natural? 16 (hexByte b) = some b.toNat := by
  have hhigh : b.toNat / 16 < 16 := by have := b.toNat_lt; omega
  have hlow : b.toNat % 16 < 16 := Nat.mod_lt _ (by omega)
  simp only [hexByte, natural?_cons, extend?, digit?_hexDigit hhigh, digit?_hexDigit hlow,
    Option.bind_some, Option.some.injEq]
  omega

/-! ## Decimal numerals -/

/-- `IsNumeral cs n`: the text `cs` is one or more decimal digits, and `n` is their value.  There
may be zeros in front. -/
structure IsNumeral (cs : List Char) (n : Nat) : Prop where
  ne_nil : cs ≠ []
  isDigit {c : Char} : c ∈ cs → c.isDigit = true
  value : Nat.ofDigitChars 10 cs 0 = n

theorem digit?_ten_eq (c : Char) :
    digit? 10 c = if c.isDigit then some (c.toNat - '0'.toNat) else none := by
  have hle : ∀ a b : Char, a ≤ b ↔ a.toNat ≤ b.toNat := fun _ _ ↦ Iff.rfl
  have h0 : '0'.toNat = 48 := rfl
  have h9 : '9'.toNat = 57 := rfl
  have ha : 'a'.toNat = 97 := rfl
  have hA : 'A'.toNat = 65 := rfl
  simp only [digit?, Char.isDigit_iff_toNat, hle]
  split
  · simp
    omega
  · -- The values of letters are ten or more.
    split
    · simp
      omega
    · split
      · simp
        omega
      · rfl

theorem extend?_ten_eq_some_iff {m n : Nat} {cs : List Char} :
    extend? 10 m cs = some n ↔
      (∀ c ∈ cs, c.isDigit = true) ∧ Nat.ofDigitChars 10 cs m = n := by
  induction cs generalizing m with
  | nil => simp [extend?]
  | cons c cs ih =>
      cases hc : c.isDigit with
      | false => simp [extend?, digit?_ten_eq, hc]
      | true => simp [extend?, digit?_ten_eq, hc, ih, Nat.ofDigitChars]

theorem natural?_ten_eq_some_iff {cs : List Char} {n : Nat} :
    natural? 10 cs = some n ↔ IsNumeral cs n := by
  cases cs with
  | nil => exact ⟨fun h ↦ by simp at h, fun h ↦ absurd rfl h.ne_nil⟩
  | cons c cs =>
      rw [natural?_cons, extend?_ten_eq_some_iff]
      exact ⟨fun h ↦ ⟨List.cons_ne_nil c cs, h.1 _, h.2⟩, fun h ↦ ⟨fun _ ↦ h.isDigit, h.value⟩⟩

/-! ## The characters of numbers -/

theorem isBlank_eq_false_of_range {c : Char} (h : 0x21 ≤ c.toNat ∧ c.toNat < 0x80) :
    isBlank c = false := by
  simp only [isBlank, Bool.or_eq_false_iff, Bool.and_eq_false_iff, decide_eq_false_iff_not,
    beq_eq_false_iff_ne]
  omega

theorem isSpecBlank_eq_false_of_range {c : Char} (h : 0x21 ≤ c.toNat ∧ c.toNat < 0x80) :
    isSpecBlank c = false := by
  cases hspec : isSpecBlank c with
  | false => rfl
  | true =>
      have hblank := isBlank_of_isSpecBlank hspec
      rw [isBlank_eq_false_of_range h] at hblank
      cases hblank

theorem range_of_mem_decimal {n : Nat} {c : Char} (hc : c ∈ decimal n) :
    0x30 ≤ c.toNat ∧ c.toNat ≤ 0x66 := by
  obtain ⟨d, hd⟩ := exists_digit?_of_natural?_eq_some (natural?_decimal n) hc
  exact range_of_digit?_eq_some hd

theorem range_of_mem_hexByte {b : UInt8} {c : Char} (hc : c ∈ hexByte b) :
    0x30 ≤ c.toNat ∧ c.toNat ≤ 0x66 := by
  obtain ⟨d, hd⟩ := exists_digit?_of_natural?_eq_some (natural?_hexByte b) hc
  exact range_of_digit?_eq_some hd

end LinkMonitor.Text
