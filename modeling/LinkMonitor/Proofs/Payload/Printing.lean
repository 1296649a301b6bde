import LinkMonitor.Proofs.Payload.Composition

/-!
# Writing decode specs

Every list of directives is what some spec says, as long as its transforms are by whole numbers:
`toSpec` writes one, with each literal behind a backslash.  Whatever a literal looks like, the
backslash keeps it from being read as anything else, and no field takes it for part of a transform.
-/

namespace LinkMonitor.Payload

open LinkMonitor.Text

/-! ## Words that are written -/

/-- A whole number that is kept exactly. -/
def Number.IsExact : Number → Prop
  | .exact n => Fits n
  | .real _ => False

instance : (n : Number) → Decidable n.IsExact
  | .exact n => inferInstanceAs (Decidable (Fits n))
  | .real _ => inferInstanceAs (Decidable False)

/-- The words of a transform. -/
def Transform.spelling (t : Transform) : List (List Char) :=
  [[t.operator.symbol], t.operand.text.toList]

namespace Directive

/-- The words of a directive. -/
def spelling : Directive → List (List Char)
  | .field k ts => [k.code] :: ts.flatMap Transform.spelling
  | .hex count => ['x' :: decimal count]
  | .ascii none => [['a']]
  | .ascii (some count) => ['a' :: decimal count]
  | .literal text => ['\\' :: text.toList]

/-- A spec that says the given directives. -/
def toSpec (ds : List Directive) : String :=
  .ofList ([' '].intercalate (ds.flatMap spelling))

/-- The operands of the transforms are whole numbers of 128 bits, lengths of runs are from one to
the greatest word of 64 bits, and literals are words. -/
def Writable : Directive → Prop
  | .field _ ts => ∀ t ∈ ts, t.operand.IsExact
  | d => d.WellFormed

instance : (d : Directive) → Decidable d.Writable
  | .field _ ts => inferInstanceAs (Decidable (∀ t ∈ ts, t.operand.IsExact))
  | .hex n => inferInstanceAs (Decidable (Directive.hex n).WellFormed)
  | .ascii count => inferInstanceAs (Decidable (Directive.ascii count).WellFormed)
  | .literal text => inferInstanceAs (Decidable (Directive.literal text).WellFormed)

end Directive

/-! ## Numbers -/

theorem Number.IsExact.exists {n : Number} (h : n.IsExact) :
    ∃ value, Fits value ∧ n = .exact value := by
  cases n with
  | exact value => exact ⟨value, h, rfl⟩
  | real _ => exact h.elim

theorem Number.ofWord?_signedDecimal {n : Int} (hn : Fits n) :
    Number.ofWord? (signedDecimal n) = some (.exact n) := by
  have hfits : (integer? (signedDecimal n)).filter (Fits ·) = some n := by
    simp [integer?_signedDecimal, hn]
  rw [Number.ofWord?, hfits]

theorem Number.ofWord?_backslash (cs : List Char) : Number.ofWord? ('\\' :: cs) = none := by
  have hdigit : digit? 10 '\\' = none := rfl
  have hspan : Decimal.spanDigits ('\\' :: cs) = ([], '\\' :: cs) := rfl
  simp [Number.ofWord?, integer?, extend?, hdigit, Decimal.float?, Decimal.unsigned?, hspan]

theorem isNumeral_decimal (n : Nat) : IsNumeral (decimal n) n :=
  natural?_ten_eq_some_iff.mp (natural?_decimal n)

/-! ## None of it is blank -/

theorem isSpecBlank_of_mem_decimal {n : Nat} {c : Char} (hc : c ∈ decimal n) :
    isSpecBlank c = false := by
  have hrange := range_of_mem_decimal hc
  exact isSpecBlank_eq_false_of_range (by omega)

theorem isWord_letter_decimal {letter : Char} (hletter : isSpecBlank letter = false) (n : Nat) :
    IsWord isSpecBlank (letter :: decimal n) := by
  refine ⟨List.cons_ne_nil _ _, ?_⟩
  intro c hc
  rcases List.mem_cons.mp hc with rfl | hc
  · exact hletter
  · exact isSpecBlank_of_mem_decimal hc

theorem isWord_signedDecimal (n : Int) : IsWord isSpecBlank (signedDecimal n) := by
  cases n with
  | ofNat n => exact ⟨Nat.toDigits_ne_nil, isSpecBlank_of_mem_decimal⟩
  | negSucc n => exact isWord_letter_decimal rfl (n + 1)

theorem isWord_code (k : Kind) : IsWord isSpecBlank [k.code] := by
  refine isWord_singleton ?_
  cases k with
  | unsigned w | signed w => cases w <;> rfl
  | single | double => rfl

theorem isWord_symbol (op : Operator) : IsWord isSpecBlank [op.symbol] := by
  refine isWord_singleton ?_
  cases op <;> rfl

namespace Directive

theorem Writable.isWord {d : Directive} (h : d.Writable) :
    ∀ w ∈ d.spelling, IsWord isSpecBlank w := by
  cases d with
  | field k ts =>
      refine List.forall_mem_cons.mpr ⟨isWord_code k, ?_⟩
      intro w hw
      obtain ⟨t, ht, hw⟩ := List.mem_flatMap.mp hw
      obtain ⟨n, -, hoperand⟩ := (h t ht).exists
      simp only [Transform.spelling, hoperand, Number.text_exact, String.toList_ofList,
        List.mem_cons, List.not_mem_nil, or_false] at hw
      rcases hw with rfl | rfl
      · exact isWord_symbol t.operator
      · exact isWord_signedDecimal n
  | hex count => simpa [spelling] using isWord_letter_decimal rfl count
  | ascii count =>
      cases count with
      | none => simpa [spelling] using isWord_singleton rfl
      | some count => simpa [spelling] using isWord_letter_decimal rfl count
  | literal text =>
      have hword : IsWord isSpecBlank text.toList := h
      simpa [spelling] using hword.cons rfl

theorem words_toSpec {ds : List Directive} (h : ∀ d ∈ ds, d.Writable) :
    words isSpecBlank (toSpec ds).toList = ds.flatMap spelling := by
  rw [toSpec, String.toList_ofList]
  refine words_intercalate rfl ?_
  intro w hw
  obtain ⟨d, hd, hw⟩ := List.mem_flatMap.mp hw
  exact (h d hd).isWord w hw

/-! ## Reading what is written -/

theorem letter_ne_code {letter : Char} (hletter : letter ∈ ['x', 'a', '\\']) (cs : List Char)
    (k : Kind) : letter :: cs ≠ [k.code] := by
  have hcode : k.code ∉ ['x', 'a', '\\'] := by
    cases k with
    | unsigned w | signed w => cases w <;> decide
    | single | double => decide
  intro h
  rw [(List.cons.inj h).1] at hletter
  exact hcode hletter

theorem stands_backslash {text : List Char} (hne : text ≠ []) :
    Stands ('\\' :: text) (.literal (.ofList text)) := by
  refine .literal ?_ (.escaped hne)
  intro count
  constructor <;> intro hrun <;> simp [isRun_iff] at hrun

/-- No directive begins with an operator. -/
theorem not_beginWithTransform_flatMap (ds : List Directive) :
    ¬ BeginWithTransform (ds.flatMap spelling) := by
  rintro ⟨op, operand, n, rest, he, -⟩
  cases ds with
  | nil => cases he
  | cons d ds =>
      have hhead : (d.spelling ++ ds.flatMap spelling).head? = some [op.symbol] := by
        rw [← List.flatMap_cons, he]
        rfl
      cases d with
      | field k ts =>
          have hcode : k.code = op.symbol := by simpa [spelling] using hhead
          cases k with
          | unsigned w | signed w => cases w <;> cases op <;> contradiction
          | single | double => cases op <;> contradiction
      | hex count => cases op <;> simp [spelling, Operator.symbol] at hhead
      | ascii count => cases count <;> cases op <;> simp [spelling, Operator.symbol] at hhead
      | literal text => cases op <;> simp [spelling, Operator.symbol] at hhead

theorem spellTransforms_flatMap {ts : List Transform}
    (h : ∀ t ∈ ts, t.operand.IsExact) :
    SpellTransforms (ts.flatMap Transform.spelling) ts := by
  induction ts with
  | nil => exact .nil
  | cons t ts ih =>
      obtain ⟨ht, hts⟩ := List.forall_mem_cons.mp h
      obtain ⟨n, hn, hoperand⟩ := ht.exists
      refine .cons ?_ (ih hts)
      rw [hoperand, Number.text_exact, String.toList_ofList]
      exact Number.ofWord?_signedDecimal hn

theorem derives_flatMap_spelling {ds : List Directive} (h : ∀ d ∈ ds, d.Writable) :
    Derives (ds.flatMap spelling) ds := by
  induction ds with
  | nil => exact .nil
  | cons d ds ih =>
      obtain ⟨hd, hds⟩ := List.forall_mem_cons.mp h
      cases d with
      | field k ts =>
          exact .field (spellTransforms_flatMap hd) (not_beginWithTransform_flatMap ds) (ih hds)
      | hex count =>
          have hrun : IsRun 'x' ('x' :: decimal count) (some count) :=
            .counted (isNumeral_decimal count) hd
          exact .word (letter_ne_code (by decide) _) (.hex hrun) (ih hds)
      | ascii count =>
          cases count with
          | none => exact .word (letter_ne_code (by decide) _) (.ascii .bare) (ih hds)
          | some count =>
              have hrun : IsRun 'a' ('a' :: decimal count) (some count) :=
                .counted (isNumeral_decimal count) (hd count rfl)
              exact .word (letter_ne_code (by decide) _) (.ascii hrun) (ih hds)
      | literal text =>
          have hword : IsWord isSpecBlank text.toList := hd
          have hstands := stands_backslash hword.ne_nil
          rw [String.ofList_toList] at hstands
          exact .word (letter_ne_code (by decide) _) hstands (ih hds)

/-! ## Backslashes -/

section Backslash

variable {text : String} (h : IsWord isSpecBlank text.toList)
include h

theorem words_backslash (s : String) :
    words isSpecBlank ("\\" ++ text ++ " " ++ s).toList =
      ('\\' :: text.toList) :: words isSpecBlank s.toList := by
  have hword : IsWord isSpecBlank ("\\" ++ text).toList := by simpa using h.cons rfl
  rw [words_spec_append, hword.words_eq]
  simp

theorem beginsAnew_backslash (s : String) :
    BeginsAnew (words isSpecBlank ("\\" ++ text ++ " " ++ s).toList) := by
  rw [words_backslash h]
  intro w hw
  obtain rfl := Option.some.inj hw
  exact ⟨rfl, Number.ofWord?_backslash _⟩

theorem ofSpec_backslash (s : String) :
    ofSpec ("\\" ++ text ++ " " ++ s) = .literal text :: ofSpec s := by
  have hstands := stands_backslash h.ne_nil
  rw [String.ofList_toList] at hstands
  rw [ofSpec, words_backslash h]
  exact (Derives.word (letter_ne_code (by decide) _) hstands (derives_ofWords _)).ofWords_eq

theorem ofSpec_append_backslash (s t : String) :
    ofSpec (s ++ " \\" ++ text ++ " " ++ t) = ofSpec s ++ .literal text :: ofSpec t := by
  have hsplit : s ++ " \\" ++ text ++ " " ++ t = s ++ " " ++ ("\\" ++ text ++ " " ++ t) := by
    rw [← String.toList_inj]
    simp
  rw [hsplit, ofSpec_append (beginsAnew_backslash h t), ofSpec_backslash h]

end Backslash

/-- **What is written is read again.**  The spec that is written for some directives says just
these, if their transforms are by whole numbers of 128 bits.  And in any spec, a backslash makes a
literal of a word, whatever the word is and whatever stands before and behind it. -/
theorem ofSpec_toSpec {ds : List Directive} (h : ∀ d ∈ ds, d.Writable) :
    ofSpec (toSpec ds) = ds ∧
      ∀ text : String, IsWord isSpecBlank text.toList → ∀ s t : String,
        ofSpec (s ++ " \\" ++ text ++ " " ++ t) = ofSpec s ++ .literal text :: ofSpec t := by
  refine ⟨?_, fun text htext ↦ ofSpec_append_backslash htext⟩
  rw [ofSpec, words_toSpec h]
  exact (derives_flatMap_spelling h).ofWords_eq

/-- Literals that look like an operator, a number, a field and an escaped word, right after fields
and after a number of 128 bits. -/
theorem ofSpec_toSpec_of_misleading_literals :
    let ds : List Directive :=
      [.field (.unsigned .w16) [⟨.mul, .exact (-(1 <<< 127 : Nat))⟩], .literal "+", .literal "2",
        .field .double [], .literal "-", .literal "\\x", .ascii none, .hex (UInt64.size - 1)]
    (∀ d ∈ ds, d.Writable) ∧ ofSpec (toSpec ds) = ds ∧
      toSpec ds = "g * -170141183460469231731687303715884105728 \\+ \\2 d \\- \\\\x a " ++
        "x18446744073709551615" := by
  intro ds
  have hwritable : ∀ d ∈ ds, d.Writable := by decide +kernel
  exact ⟨hwritable, (ofSpec_toSpec hwritable).1, by decide +kernel⟩

end Directive

end LinkMonitor.Payload
