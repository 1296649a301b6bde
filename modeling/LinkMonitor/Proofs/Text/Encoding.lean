import LinkMonitor.Text.Utf8

/-!
# The bytes of characters

A text is a list of characters, and its bytes are those of the characters one after another
(`encode`).  Characters of ASCII are one byte each.  All bytes of other characters are `0x80` or
more, so that a byte of ASCII stands for its character wherever it occurs (`mem_encode_iff`): a
scanner of bytes can look for such bytes and need not know where characters begin.
-/

namespace LinkMonitor.Text

/-- The bytes of characters in UTF-8. -/
def encode (cs : List Char) : List UInt8 := cs.flatMap String.utf8EncodeChar

@[simp] theorem encode_nil : encode [] = [] := rfl

@[simp] theorem encode_cons (c : Char) (cs : List Char) :
    encode (c :: cs) = String.utf8EncodeChar c ++ encode cs := rfl

@[simp] theorem encode_append (s t : List Char) : encode (s ++ t) = encode s ++ encode t :=
  List.flatMap_append

theorem utf8_ofList (cs : List Char) : utf8 (.ofList cs) = encode cs := by
  simp [utf8, encode, List.utf8Encode]

theorem utf8_eq_encode (s : String) : utf8 s = encode s.toList := by
  rw [← utf8_ofList, String.ofList_toList]

/-- Bytes are read as the text that they are the bytes of. -/
theorem ofUtf8_eq_ok_iff {bs : List UInt8} {s : String} : ofUtf8 bs = .ok s ↔ bs = utf8 s := by
  constructor
  · intro h
    simp only [ofUtf8, String.fromUTF8?] at h
    split at h
    · rename_i t ht
      split at ht
      · obtain rfl := Option.some.inj ht
        obtain rfl := Except.ok.inj h
        simp [utf8, String.fromUTF8]
      · cases ht
    · cases h
  · rintro rfl
    exact ofUtf8_utf8 s

/-! ## ASCII -/

theorem utf8EncodeChar_of_lt {c : Char} (h : c.toNat < 0x80) :
    String.utf8EncodeChar c = [UInt8.ofNat c.toNat] := by
  have hv : c.val.toNat ≤ 0x7F := Nat.le_of_lt_succ h
  rw [String.utf8EncodeChar]
  exact if_pos hv

theorem le_of_mem_utf8EncodeChar {c : Char} (h : 0x80 ≤ c.toNat) {b : UInt8}
    (hb : b ∈ String.utf8EncodeChar c) : 0x80 ≤ b.toNat := by
  have hv : ¬ c.val.toNat ≤ 0x7F := Nat.not_le.mpr h
  have hbyte : ∀ n, 0x80 ≤ n → n < 0x100 → 0x80 ≤ (UInt8.ofNat n).toNat := by
    intro n hle hlt
    rwa [UInt8.toNat_ofNat_of_lt' hlt]
  rw [String.utf8EncodeChar] at hb
  simp only [hv, if_false] at hb
  split at hb
  · rcases List.mem_cons.mp hb with rfl | hb
    · exact hbyte _ (by omega) (by omega)
    · obtain rfl := List.mem_singleton.mp hb
      exact hbyte _ (by omega) (by omega)
  · split at hb
    · simp only [List.mem_cons, List.not_mem_nil, or_false] at hb
      rcases hb with rfl | rfl | rfl <;> exact hbyte _ (by omega) (by omega)
    · simp only [List.mem_cons, List.not_mem_nil, or_false] at hb
      rcases hb with rfl | rfl | rfl | rfl <;> exact hbyte _ (by omega) (by omega)

/-- A byte of ASCII among the bytes of a character is the whole character. -/
theorem eq_of_mem_utf8EncodeChar {c d : Char} (hd : d.toNat < 0x80)
    (h : UInt8.ofNat d.toNat ∈ String.utf8EncodeChar c) : c = d := by
  have hsize : UInt8.size = 0x100 := rfl
  have hbyte : (UInt8.ofNat d.toNat).toNat = d.toNat := UInt8.toNat_ofNat_of_lt' (by omega)
  by_cases hc : c.toNat < 0x80
  · rw [utf8EncodeChar_of_lt hc, List.mem_singleton] at h
    have hn : d.toNat = c.toNat := by
      rw [← hbyte, h, UInt8.toNat_ofNat_of_lt' (by omega)]
    exact (Char.toNat_inj.mp hn).symm
  · have := le_of_mem_utf8EncodeChar (Nat.not_lt.mp hc) h
    omega

theorem mem_encode_iff {d : Char} (hd : d.toNat < 0x80) {cs : List Char} :
    UInt8.ofNat d.toNat ∈ encode cs ↔ d ∈ cs := by
  rw [encode, List.mem_flatMap]
  constructor
  · rintro ⟨c, hc, hmem⟩
    exact eq_of_mem_utf8EncodeChar hd hmem ▸ hc
  · intro h
    exact ⟨d, h, by rw [utf8EncodeChar_of_lt hd]; exact List.mem_singleton.mpr rfl⟩

/-! ## The byte order mark -/

/-- Characters below `U+F000` do not begin with the byte that a byte order mark begins with. -/
theorem head?_utf8EncodeChar_ne {c : Char} (h : c.toNat < 0xF000) :
    (String.utf8EncodeChar c).head? ≠ some 0xEF := by
  have hbyte : ∀ n < 0xEF, some (UInt8.ofNat n) ≠ some 0xEF := by
    intro n hn he
    have hvalue := congrArg UInt8.toNat (Option.some.inj he)
    rw [UInt8.toNat_ofNat_of_lt' (Nat.lt_trans hn (by decide))] at hvalue
    exact absurd hvalue (Nat.ne_of_lt hn)
  have hv : c.val.toNat < 0xF000 := h
  rw [String.utf8EncodeChar]
  split
  · exact hbyte _ (by omega)
  · split
    · exact hbyte _ (by omega)
    · rw [if_pos (by omega)]
      exact hbyte _ (by omega)

end LinkMonitor.Text
