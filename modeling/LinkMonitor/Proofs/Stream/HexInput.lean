import LinkMonitor.Format
import LinkMonitor.Proofs.Text.Numerals
import LinkMonitor.Proofs.Text.Words
import LinkMonitor.Stream.HexInput
import Mathlib.Data.List.Forall2

/-!
# Spellings of bytes

The same bytes can be typed in many ways: with one digit or two for a small byte, with letters in
either case, and with any blanks between the words and around them.  `Spells` says what is a
spelling of given bytes, and every spelling is read as the bytes that it spells (`parse_of_spells`).

Nothing else is read.  The words that are read are those that spell a byte (`token?_eq_some_iff`),
and the first that is not one of them is reported (`ofWords_eq_error_iff`).
-/

namespace LinkMonitor.HexInput

open LinkMonitor.Text

/-- A hexadecimal digit in either case, and its value. -/
def IsDigit (c : Char) (d : Nat) : Prop := d < 16 ∧ (c = hexDigit d ∨ c = (hexDigit d).toLower)

instance (c : Char) (d : Nat) : Decidable (IsDigit c d) := inferInstanceAs (Decidable (_ ∧ _))

/-- `SpellsByte w b`: the word `w` is one or two hexadecimal digits with the value `b`. -/
inductive SpellsByte : List Char → UInt8 → Prop
  | one {c : Char} {b : UInt8} : IsDigit c b.toNat → SpellsByte [c] b
  | two {high low : Char} {b : UInt8} : IsDigit high (b.toNat / 16) → IsDigit low (b.toNat % 16) →
      SpellsByte [high, low] b

/-- `Spells cs bs`: the text `cs` is made of words that spell the bytes `bs`, with blanks between
any two of them, and maybe before the first and behind the last. -/
inductive Spells : List Char → List UInt8 → Prop
  | nil : Spells [] []
  | /-- A blank before a word or at the end. -/
    blank {c : Char} {cs : List Char} {bs : List UInt8} : isBlank c = true → Spells cs bs →
      Spells (c :: cs) bs
  | /-- A word and the blank behind it. -/
    word {w : List Char} {b : UInt8} {c : Char} {cs : List Char} {bs : List UInt8} :
      SpellsByte w b → isBlank c = true → Spells cs bs → Spells (w ++ c :: cs) (b :: bs)
  | /-- A last word with nothing behind it. -/
    last {w : List Char} {b : UInt8} : SpellsByte w b → Spells w [b]

theorem digit?_of_isDigit {c : Char} {d : Nat} (h : IsDigit c d) : digit? 16 c = some d := by
  have hlower : ∀ d < 16, digit? 16 (hexDigit d).toLower = some d := by decide
  obtain ⟨hd, rfl | rfl⟩ := h
  · exact digit?_hexDigit hd
  · exact hlower d hd

/-- A number is a word. -/
theorem isWord_of_natural?_eq_some {base n : Nat} {cs : List Char}
    (h : natural? base cs = some n) : IsWord isBlank cs := by
  refine ⟨?_, ?_⟩
  · rintro rfl
    cases h
  · intro c hc
    obtain ⟨d, hd⟩ := exists_digit?_of_natural?_eq_some h hc
    have := range_of_digit?_eq_some hd
    exact isBlank_eq_false_of_range (by omega)

namespace SpellsByte

variable {w : List Char} {b : UInt8}

theorem natural?_eq (h : SpellsByte w b) : natural? 16 w = some b.toNat := by
  cases h with
  | one hc => simp [extend?, digit?_of_isDigit hc]
  | two hhigh hlow =>
      simp only [natural?_cons, extend?, digit?_of_isDigit hhigh, digit?_of_isDigit hlow,
        Option.bind_some, Option.some.injEq]
      omega

theorem token?_eq (h : SpellsByte w b) : token? w = some b := by
  have hlen : w.length ≤ 2 := by cases h <;> simp
  simp [token?, hlen, h.natural?_eq]

theorem isWord (h : SpellsByte w b) : IsWord isBlank w :=
  isWord_of_natural?_eq_some h.natural?_eq

end SpellsByte

/-- The words of a spelling spell the bytes one by one. -/
theorem Spells.forall₂ {cs : List Char} {bs : List UInt8} (h : Spells cs bs) :
    List.Forall₂ SpellsByte (words isBlank cs) bs := by
  induction h with
  | nil => exact .nil
  | blank hc _ ih => rwa [words_cons_of_blank _ hc]
  | word hw hc _ ih =>
      rw [hw.isWord.words_append_cons hc]
      exact .cons hw ih
  | last hw =>
      rw [hw.isWord.words_eq]
      exact .cons hw .nil

theorem ofWords_of_forall₂ {ws : List (List Char)} {bs : List UInt8}
    (h : List.Forall₂ SpellsByte ws bs) (i : Nat) : ofWords i ws = .ok bs := by
  induction h generalizing i with
  | nil => rfl
  | cons hw _ ih =>
      rw [ofWords, hw.token?_eq]
      simp only [ih (i + 1)]
      rfl

/-- A spelling is read as the bytes that it spells. -/
theorem parse_of_spells {input : String} {bs : List UInt8} (h : Spells input.toList bs)
    (hne : bs ≠ []) : parse input = .ok bs := by
  have hwords := h.forall₂
  unfold parse
  split
  · rename_i hnil
    rw [hnil] at hwords
    cases hwords
    contradiction
  · exact ofWords_of_forall₂ hwords 0

/-! ## What is read -/

/-- A character that is read as a digit is one, in either case. -/
theorem isDigit_of_digit?_eq_some {c : Char} {d : Nat} (h : digit? 16 c = some d) :
    IsDigit c d := by
  have hread : ∀ n < 0x67, ∀ d ∈ digit? 16 (Char.ofNat n), IsDigit (Char.ofNat n) d := by decide
  have hc := (range_of_digit?_eq_some h).2
  have hd := hread c.toNat (by omega) d (by rwa [Char.ofNat_toNat])
  rwa [Char.ofNat_toNat] at hd

/-- One or two digits spell the byte that is their value. -/
theorem spellsByte_of_natural?_eq_some {w : List Char} {n : Nat} (hw : w.length ≤ 2)
    (h : natural? 16 w = some n) : SpellsByte w (UInt8.ofNat n) := by
  have hvalue {m : Nat} (hm : m < 256) : (UInt8.ofNat m).toNat = m := UInt8.toNat_ofNat_of_lt' hm
  rcases w with - | ⟨c, - | ⟨d, - | ⟨e, rest⟩⟩⟩
  · cases h
  · simp only [natural?_cons, extend?, Option.bind_eq_some_iff, Option.some.injEq] at h
    obtain ⟨x, hx, rfl⟩ := h
    have hc := isDigit_of_digit?_eq_some hx
    have hx16 := hc.1
    refine .one ?_
    rwa [hvalue (by omega), Nat.mul_zero, Nat.zero_add]
  · simp only [natural?_cons, extend?, Option.bind_eq_some_iff, Option.some.injEq] at h
    obtain ⟨x, hx, y, hy, rfl⟩ := h
    have hc := isDigit_of_digit?_eq_some hx
    have hd := isDigit_of_digit?_eq_some hy
    have hx16 := hc.1
    have hy16 := hd.1
    have hb := hvalue (m := 16 * (16 * 0 + x) + y) (by omega)
    refine .two ?_ ?_
    · rwa [hb, show (16 * (16 * 0 + x) + y) / 16 = x by omega]
    · rwa [hb, show (16 * (16 * 0 + x) + y) % 16 = y by omega]
  · simp only [List.length_cons] at hw
    omega

theorem token?_eq_some_iff {w : List Char} {b : UInt8} : token? w = some b ↔ SpellsByte w b := by
  refine ⟨fun h ↦ ?_, SpellsByte.token?_eq⟩
  rw [token?] at h
  split at h
  · rename_i hw
    obtain ⟨n, hn, rfl⟩ := Option.map_eq_some_iff.mp h
    exact spellsByte_of_natural?_eq_some hw hn
  · cases h

theorem token?_eq_none_iff {w : List Char} : token? w = none ↔ ∀ b, ¬ SpellsByte w b := by
  simp only [← token?_eq_some_iff, Option.eq_none_iff_forall_ne_some, ne_eq]

theorem ofWords_eq_ok_iff {i : Nat} {ws : List (List Char)} {bs : List UInt8} :
    ofWords i ws = .ok bs ↔ List.Forall₂ SpellsByte ws bs := by
  refine ⟨fun h ↦ ?_, fun h ↦ ofWords_of_forall₂ h i⟩
  induction ws generalizing i bs with
  | nil =>
      obtain rfl := Except.ok.inj h
      exact .nil
  | cons w ws ih =>
      rw [ofWords] at h
      cases hw : token? w with
      | none =>
          rw [hw] at h
          cases h
      | some b =>
          rw [hw] at h
          cases hws : ofWords (i + 1) ws with
          | error e =>
              simp only [hws] at h
              cases h
          | ok bs' =>
              simp only [hws] at h
              obtain rfl := Except.ok.inj h
              exact .cons (token?_eq_some_iff.mp hw) (ih hws)

/-- `IsFirstInvalid ws i w`: among the words `ws`, the one at the place `i` is `w`, which spells no
byte, and every word before it spells one. -/
structure IsFirstInvalid (ws : List (List Char)) (i : Nat) (w : List Char) : Prop where
  getElem?_eq : ws[i]? = some w
  invalid (b : UInt8) : ¬ SpellsByte w b
  validBefore : ∀ v ∈ ws.take i, ∃ b, SpellsByte v b

theorem isFirstInvalid_cons_zero {w v : List Char} {ws : List (List Char)} :
    IsFirstInvalid (w :: ws) 0 v ↔ v = w ∧ token? w = none := by
  constructor
  · rintro ⟨hget, hinvalid, -⟩
    obtain rfl := Option.some.inj hget
    exact ⟨rfl, token?_eq_none_iff.mpr hinvalid⟩
  · rintro ⟨rfl, h⟩
    exact ⟨rfl, token?_eq_none_iff.mp h, by simp⟩

theorem isFirstInvalid_cons_succ {w v : List Char} {ws : List (List Char)} {i : Nat} :
    IsFirstInvalid (w :: ws) (i + 1) v ↔ (∃ b, SpellsByte w b) ∧ IsFirstInvalid ws i v := by
  constructor
  · rintro ⟨hget, hinvalid, hbefore⟩
    obtain ⟨hw, hbefore⟩ := List.forall_mem_cons.mp hbefore
    exact ⟨hw, hget, hinvalid, hbefore⟩
  · rintro ⟨hw, hget, hinvalid, hbefore⟩
    exact ⟨hget, hinvalid, List.forall_mem_cons.mpr ⟨hw, hbefore⟩⟩

/-- The first word that spells no byte is reported, with its place. -/
theorem ofWords_eq_error_iff {i : Nat} {ws : List (List Char)} {e : HexInputError} :
    ofWords i ws = .error e ↔
      ∃ k w, IsFirstInvalid ws k w ∧ e = .invalidToken (i + k) (.ofList w) := by
  induction ws generalizing i with
  | nil =>
      refine iff_of_false (by simp [ofWords]) ?_
      rintro ⟨k, w, hinvalid, -⟩
      simpa using hinvalid.getElem?_eq
  | cons w ws ih =>
      rw [ofWords]
      cases hw : token? w with
      | none =>
          constructor
          · intro h
            exact ⟨0, w, isFirstInvalid_cons_zero.mpr ⟨rfl, hw⟩, (Except.error.inj h).symm⟩
          · rintro ⟨k, v, hinvalid, rfl⟩
            cases k with
            | zero =>
                obtain ⟨rfl, -⟩ := isFirstInvalid_cons_zero.mp hinvalid
                rfl
            | succ k =>
                obtain ⟨⟨b, hb⟩, -⟩ := isFirstInvalid_cons_succ.mp hinvalid
                exact absurd hb (token?_eq_none_iff.mp hw b)
      | some b =>
          have hcons : (ofWords (i + 1) ws).map (b :: ·) = .error e ↔
              ofWords (i + 1) ws = .error e := by
            cases ofWords (i + 1) ws <;> simp [Except.map]
          rw [hcons, ih]
          constructor
          · rintro ⟨k, v, hinvalid, rfl⟩
            refine ⟨k + 1, v, isFirstInvalid_cons_succ.mpr ⟨⟨b, ?_⟩, hinvalid⟩, ?_⟩
            · exact token?_eq_some_iff.mp hw
            · rw [Nat.add_right_comm, Nat.add_assoc]
          · rintro ⟨k, v, hinvalid, rfl⟩
            cases k with
            | zero =>
                obtain ⟨-, hnone⟩ := isFirstInvalid_cons_zero.mp hinvalid
                rw [hw] at hnone
                cases hnone
            | succ k =>
                refine ⟨k, v, (isFirstInvalid_cons_succ.mp hinvalid).2, ?_⟩
                rw [Nat.add_right_comm, Nat.add_assoc]

variable {input : String}

theorem parse_eq_ok_iff {bs : List UInt8} :
    parse input = .ok bs ↔
      words isBlank input.toList ≠ [] ∧
        List.Forall₂ SpellsByte (words isBlank input.toList) bs := by
  rw [← ofWords_eq_ok_iff (i := 0), parse]
  split
  · rename_i hnil
    simp [hnil]
  · rename_i hne
    exact ⟨fun h ↦ ⟨hne, h⟩, And.right⟩

theorem parse_eq_error_empty_iff :
    parse input = .error .empty ↔ words isBlank input.toList = [] := by
  rw [parse]
  split
  · rename_i hnil
    exact iff_of_true rfl hnil
  · rename_i hne
    refine iff_of_false ?_ hne
    rw [ofWords_eq_error_iff]
    rintro ⟨k, w, -, h⟩
    cases h

theorem parse_eq_error_invalidToken_iff {i : Nat} {token : String} :
    parse input = .error (.invalidToken i token) ↔
      IsFirstInvalid (words isBlank input.toList) i token.toList := by
  rw [parse]
  split
  · rename_i hnil
    rw [hnil]
    refine iff_of_false (fun h ↦ nomatch h) fun h ↦ ?_
    simpa using h.getElem?_eq
  · rw [ofWords_eq_error_iff]
    constructor
    · rintro ⟨k, w, hinvalid, h⟩
      obtain ⟨rfl, rfl⟩ := HexInputError.invalidToken.inj h
      rwa [Nat.zero_add, String.toList_ofList]
    · intro h
      exact ⟨i, token.toList, h, by rw [Nat.zero_add, String.ofList_toList]⟩

/-! ## Messages -/

theorem spellsByte_hexByte (b : UInt8) : SpellsByte (hexByte b) b := by
  have hb := b.toNat_lt
  exact .two ⟨by omega, .inl rfl⟩ ⟨by omega, .inl rfl⟩

/-- A message is shown as two digits for each of its bytes. -/
theorem words_text (m : Message) : words isBlank m.text.toList = m.bytes.map hexByte := by
  have htext : m.text.toList = [' '].intercalate (m.bytes.map hexByte) := by
    rw [Message.text, String.toList_intercalate, List.map_map]
    congr 2
    funext b
    exact String.toList_ofList
  rw [htext]
  refine words_intercalate rfl ?_
  intro w hw
  obtain ⟨b, -, rfl⟩ := List.mem_map.mp hw
  exact (spellsByte_hexByte b).isWord

theorem parse_text (m : Message) : parse m.text = .ok m.bytes := by
  have hwords := words_text m
  refine parse_eq_ok_iff.mpr ⟨?_, ?_⟩
  · rw [hwords]
    exact List.cons_ne_nil _ _
  · rw [hwords, List.forall₂_map_left_iff]
    exact List.forall₂_same.mpr fun b _ ↦ spellsByte_hexByte b

/-- **What is read of a typed text.**  A text is made up of words in one way only.  It is read as
bytes exactly if there is a word and every word is one or two hexadecimal digits, and then the bytes
are the values of the words in order; it is refused as empty exactly if there is no word; and
otherwise the first word of any other form is reported as it stands, with its place.  The text that
shows a message is read as the bytes of the message. -/
theorem parse_reads_words (input : String) :
    (∃ ws, (∀ vs, Splits isBlank input.toList vs ↔ vs = ws) ∧
      (∀ bs, parse input = .ok bs ↔ ws ≠ [] ∧ List.Forall₂ SpellsByte ws bs) ∧
      (parse input = .error .empty ↔ ws = []) ∧
      ∀ i token, parse input = .error (.invalidToken i token) ↔
        IsFirstInvalid ws i token.toList) ∧
    ∀ m : Message, parse m.text = .ok (m.header.high :: m.header.low :: m.data) := by
  refine ⟨⟨words isBlank input.toList, ?_, ?_, ?_, ?_⟩, parse_text⟩
  · intro vs
    rw [← words_eq_iff_splits, eq_comm]
  · exact fun _ ↦ parse_eq_ok_iff
  · exact parse_eq_error_empty_iff
  · exact fun _ _ ↦ parse_eq_error_invalidToken_iff

end LinkMonitor.HexInput
