import LinkMonitor.Payload.Directive
import LinkMonitor.Proofs.Text.Numerals
import LinkMonitor.Proofs.Text.Words
import Mathlib.Algebra.GroupWithZero.Nat

/-!
# The grammar of decode specs

A decode spec is read from left to right, and every text is one.  What it says is put down here as a
derivation: the code of a numeric field goes with all the transforms behind it, and every other word
is a directive by itself, a run of bytes if it has the form of one, and a literal otherwise.

Words have one meaning each (`ofWord_eq_iff_stands`), and so have lists of words
(`ofWords_eq_iff_derives`), which is what `Directive.ofSpec` finds.  That no word gets lost between
the directives can then be read off the derivation.
-/

namespace LinkMonitor.Payload

open LinkMonitor.Text

theorem Kind.ofWord?_eq_some_iff {w : List Char} {k : Kind} :
    Kind.ofWord? w = some k ↔ w = [k.code] := by
  constructor
  · intro h
    unfold Kind.ofWord? at h
    split at h
    · rename_i c
      unfold Kind.ofCode? at h
      split at h <;> cases h <;> rfl
    · cases h
  · rintro rfl
    exact k.ofWord?_code

theorem Operator.ofWord?_eq_some_iff {w : List Char} {op : Operator} :
    Operator.ofWord? w = some op ↔ w = [op.symbol] := by
  constructor
  · intro h
    unfold Operator.ofWord? at h
    split at h <;> cases h <;> rfl
  · rintro rfl
    exact op.ofWord?_symbol

namespace Directive

/-! ## Words by themselves -/

/-- The lengths that a run of bytes can have: from one to the greatest word of 64 bits. -/
def IsCount (n : Nat) : Prop := 0 < n ∧ n < UInt64.size

instance (n : Nat) : Decidable (IsCount n) := inferInstanceAs (Decidable (_ ∧ _))

/-- `IsRun letter w count`: the word `w` is a letter by itself, or with a count behind it. -/
inductive IsRun (letter : Char) : List Char → Option Nat → Prop
  | bare : IsRun letter [letter] none
  | counted {digits : List Char} {n : Nat} : IsNumeral digits n → IsCount n →
      IsRun letter (letter :: digits) (some n)

/-- `Unescapes w text`: the text `text` is the word `w`, less a backslash at its front that
something follows. -/
inductive Unescapes : List Char → List Char → Prop
  | escaped {text : List Char} : text ≠ [] → Unescapes ('\\' :: text) text
  | plain {w : List Char} : (∀ text, w = '\\' :: text → text = []) → Unescapes w w

/-- `Stands w d`: the word `w`, if it is not the code of a numeric field, is the directive `d`. -/
inductive Stands : List Char → Directive → Prop
  | hex {w : List Char} {count : Option Nat} : IsRun 'x' w count → Stands w (.hex (count.getD 1))
  | ascii {w : List Char} {count : Option Nat} : IsRun 'a' w count → Stands w (.ascii count)
  | /-- What is no run of bytes is a literal. -/
    literal {w text : List Char} : (∀ count, ¬ IsRun 'x' w count ∧ ¬ IsRun 'a' w count) →
      Unescapes w text → Stands w (.literal (.ofList text))

theorem isRun_iff {letter : Char} {w : List Char} {count : Option Nat} :
    IsRun letter w count ↔ ∃ cs, w = letter :: cs ∧ count? cs = some count := by
  constructor
  · intro h
    cases h with
    | bare => exact ⟨[], rfl, rfl⟩
    | @counted digits n hn hcount =>
        refine ⟨digits, rfl, ?_⟩
        obtain ⟨c, cs, rfl⟩ := List.exists_cons_of_ne_nil hn.ne_nil
        have hvalue : natural? 10 (c :: cs) = some n := natural?_ten_eq_some_iff.mpr hn
        simp only [count?, hvalue]
        simpa [IsCount] using hcount
  · rintro ⟨cs, rfl, h⟩
    cases cs with
    | nil =>
        obtain rfl := Option.some.inj h
        exact .bare
    | cons c cs =>
        simp only [count?, Option.map_eq_some_iff, Option.filter_eq_some_iff,
          decide_eq_true_eq] at h
        obtain ⟨n, ⟨hn, hcount⟩, rfl⟩ := h
        exact .counted (natural?_ten_eq_some_iff.mp hn) hcount

theorem run?_eq_some_iff {w : List Char} {d : Directive} :
    run? w = some d ↔ (∃ count, IsRun 'x' w count ∧ d = .hex (count.getD 1)) ∨
      ∃ count, IsRun 'a' w count ∧ d = .ascii count := by
  constructor
  · intro h
    unfold run? at h
    split at h
    · obtain ⟨count, hcount, rfl⟩ := Option.map_eq_some_iff.mp h
      exact .inl ⟨count, isRun_iff.mpr ⟨_, rfl, hcount⟩, rfl⟩
    · obtain ⟨count, hcount, rfl⟩ := Option.map_eq_some_iff.mp h
      exact .inr ⟨count, isRun_iff.mpr ⟨_, rfl, hcount⟩, rfl⟩
    · cases h
  · rintro (⟨count, hrun, rfl⟩ | ⟨count, hrun, rfl⟩)
    · obtain ⟨cs, rfl, hcount⟩ := isRun_iff.mp hrun
      simp [run?, hcount]
    · obtain ⟨cs, rfl, hcount⟩ := isRun_iff.mp hrun
      simp [run?, hcount]

theorem unescape_eq_iff {w text : List Char} : unescape w = text ↔ Unescapes w text := by
  constructor
  · rintro rfl
    unfold unescape
    split
    · rename_i c cs
      exact .escaped (List.cons_ne_nil c cs)
    · rename_i hplain
      refine .plain ?_
      intro text hw
      cases text with
      | nil => rfl
      | cons c cs => exact absurd hw (hplain c cs)
  · intro h
    cases h with
    | @escaped text hne =>
        cases text with
        | nil => contradiction
        | cons c cs => rfl
    | plain hplain =>
        unfold unescape
        split
        · rename_i c cs
          exact absurd (hplain (c :: cs) rfl) (List.cons_ne_nil c cs)
        · rfl

/-- A word has exactly one meaning. -/
theorem ofWord_eq_iff_stands {w : List Char} {d : Directive} : ofWord w = d ↔ Stands w d := by
  constructor
  · rintro rfl
    rw [ofWord]
    cases hrun : run? w with
    | some d =>
        rcases run?_eq_some_iff.mp hrun with ⟨count, hcount, rfl⟩ | ⟨count, hcount, rfl⟩
        · exact .hex hcount
        · exact .ascii hcount
    | none =>
        refine .literal ?_ (unescape_eq_iff.mp rfl)
        intro count
        constructor
        · intro hcount
          simp [run?_eq_some_iff.mpr (.inl ⟨count, hcount, rfl⟩)] at hrun
        · intro hcount
          simp [run?_eq_some_iff.mpr (.inr ⟨count, hcount, rfl⟩)] at hrun
  · intro h
    cases h with
    | hex hcount => simp [ofWord, run?_eq_some_iff.mpr (.inl ⟨_, hcount, rfl⟩)]
    | ascii hcount => simp [ofWord, run?_eq_some_iff.mpr (.inr ⟨_, hcount, rfl⟩)]
    | literal hrun htext =>
        have hnone : run? w = none := by
          rw [Option.eq_none_iff_forall_ne_some]
          intro d hd
          rcases run?_eq_some_iff.mp hd with ⟨count, hcount, -⟩ | ⟨count, hcount, -⟩
          · exact (hrun count).1 hcount
          · exact (hrun count).2 hcount
        simp [ofWord, hnone, unescape_eq_iff.mpr htext]

/-! ## Transforms -/

/-- `SpellTransforms ws ts`: the words are pairs of an operator and a number, one pair for each
transform. -/
inductive SpellTransforms : List (List Char) → List Transform → Prop
  | nil : SpellTransforms [] []
  | cons {t : Transform} {operand : List Char} {ws : List (List Char)} {ts : List Transform} :
      Number.ofWord? operand = some t.operand → SpellTransforms ws ts →
      SpellTransforms ([t.operator.symbol] :: operand :: ws) (t :: ts)

/-- The first two of the words are an operator and a number. -/
def BeginWithTransform (ws : List (List Char)) : Prop :=
  ∃ (op : Operator) (operand : List Char) (n : Number) (rest : List (List Char)),
    ws = [op.symbol] :: operand :: rest ∧ Number.ofWord? operand = some n

theorem transforms_of_not_begin {ws : List (List Char)} (h : ¬ BeginWithTransform ws) :
    transforms ws = ([], ws) := by
  unfold transforms
  split
  · rename_i op operand ws
    split
    · rename_i o n ho hn
      refine absurd ⟨o, operand, n, ws, ?_, hn⟩ h
      rw [Operator.ofWord?_eq_some_iff.mp ho]
    · rfl
  · rfl

theorem SpellTransforms.transforms_append {used ws : List (List Char)} {ts : List Transform}
    (h : SpellTransforms used ts) (hws : ¬ BeginWithTransform ws) :
    transforms (used ++ ws) = (ts, ws) := by
  induction h with
  | nil => exact transforms_of_not_begin hws
  | cons hoperand _ ih => simp [transforms, hoperand, ih]

/-- The words at the front spell the transforms that are found, and there are no more of them. -/
theorem exists_spellTransforms (ws : List (List Char)) :
    ∃ used, used ++ (transforms ws).2 = ws ∧ SpellTransforms used (transforms ws).1 ∧
      ¬ BeginWithTransform (transforms ws).2 := by
  fun_induction transforms ws with
  | case1 op operand ws o n hn ho ih =>
      obtain ⟨used, hused, hspell, hend⟩ := ih
      obtain rfl := Operator.ofWord?_eq_some_iff.mp ho
      refine ⟨[o.symbol] :: operand :: used, ?_, .cons (t := ⟨o, n⟩) hn hspell, hend⟩
      rw [List.cons_append, List.cons_append, hused]
  | case2 op operand ws hnone =>
      refine ⟨[], rfl, .nil, ?_⟩
      rintro ⟨o, operand', n, rest, hws, hn⟩
      cases hws
      exact hnone o n o.ofWord?_symbol hn
  | case3 ws hws =>
      refine ⟨[], rfl, .nil, ?_⟩
      rintro ⟨o, operand, n, rest, rfl, -⟩
      exact hws _ _ _ rfl

/-! ## Lists of words -/

/-- `Derives ws ds`: reading the words from left to right gives the directives. -/
inductive Derives : List (List Char) → List Directive → Prop
  | nil : Derives [] []
  | /-- A numeric field takes as many transforms as follow it. -/
    field {k : Kind} {used ws : List (List Char)} {ts : List Transform} {ds : List Directive} :
      SpellTransforms used ts → ¬ BeginWithTransform ws → Derives ws ds →
      Derives ([k.code] :: (used ++ ws)) (.field k ts :: ds)
  | /-- Another word is a directive by itself. -/
    word {w : List Char} {d : Directive} {ws : List (List Char)} {ds : List Directive} :
      (∀ k : Kind, w ≠ [k.code]) → Stands w d → Derives ws ds → Derives (w :: ws) (d :: ds)

theorem derives_ofWords (ws : List (List Char)) : Derives ws (ofWords ws) := by
  fun_induction ofWords ws with
  | case1 => exact .nil
  | case2 w ws k hk ih =>
      obtain rfl := Kind.ofWord?_eq_some_iff.mp hk
      obtain ⟨used, hused, hspell, hend⟩ := exists_spellTransforms ws
      have hfield := Derives.field (k := k) hspell hend ih
      rwa [hused] at hfield
  | case3 w ws hk ih =>
      refine .word ?_ (ofWord_eq_iff_stands.mp rfl) ih
      rintro k rfl
      simp at hk

theorem Derives.ofWords_eq {ws : List (List Char)} {ds : List Directive} (h : Derives ws ds) :
    ofWords ws = ds := by
  induction h with
  | nil => simp [ofWords]
  | @field k used ws ts ds hspell hend _ ih =>
      rw [ofWords, Kind.ofWord?_code]
      simp only [hspell.transforms_append hend, ih]
  | @word w d ws ds hw hd _ ih =>
      have hk : Kind.ofWord? w = none := by
        rw [Option.eq_none_iff_forall_ne_some]
        exact fun k hk ↦ hw k (Kind.ofWord?_eq_some_iff.mp hk)
      rw [ofWords, hk]
      simp only [ofWord_eq_iff_stands.mpr hd, ih]

theorem ofWords_eq_iff_derives {ws : List (List Char)} {ds : List Directive} :
    ofWords ws = ds ↔ Derives ws ds := by
  constructor
  · rintro rfl
    exact derives_ofWords ws
  · exact Derives.ofWords_eq

/-! ## What directives can be -/

/-- The number of words that a directive takes up. -/
def wordCount : Directive → Nat
  | .field _ ts => 1 + 2 * ts.length
  | _ => 1

/-- Runs of bytes are of a length that can be written, and literals are words. -/
def WellFormed : Directive → Prop
  | .field _ _ => True
  | .hex n => IsCount n
  | .ascii count => ∀ n ∈ count, IsCount n
  | .literal text => IsWord isSpecBlank text.toList

instance : (d : Directive) → Decidable d.WellFormed
  | .field _ _ => inferInstanceAs (Decidable True)
  | .hex n => inferInstanceAs (Decidable (IsCount n))
  | .ascii count => inferInstanceAs (Decidable (∀ n ∈ count, IsCount n))
  | .literal text => inferInstanceAs (Decidable (IsWord isSpecBlank text.toList))

theorem SpellTransforms.length_eq {ws : List (List Char)} {ts : List Transform}
    (h : SpellTransforms ws ts) : ws.length = 2 * ts.length := by
  induction h with
  | nil => rfl
  | cons _ _ ih => simp only [List.length_cons, ih]; omega

theorem Stands.wordCount_eq {w : List Char} {d : Directive} (h : Stands w d) : d.wordCount = 1 := by
  cases h <;> rfl

theorem Derives.sum_wordCount {ws : List (List Char)} {ds : List Directive} (h : Derives ws ds) :
    (ds.map wordCount).sum = ws.length := by
  induction h with
  | nil => rfl
  | field hspell _ _ ih =>
      simp only [List.map_cons, List.sum_cons, wordCount, ih, List.length_cons, List.length_append,
        hspell.length_eq]
      omega
  | word _ hd _ ih =>
      simp only [List.map_cons, List.sum_cons, hd.wordCount_eq, ih, List.length_cons]
      omega

theorem IsRun.isCount {letter : Char} {w : List Char} {n : Nat} (h : IsRun letter w (some n)) :
    IsCount n := by
  cases h with
  | counted _ hcount => exact hcount

theorem Unescapes.isWord {w text : List Char} (h : Unescapes w text) (hw : IsWord isSpecBlank w) :
    IsWord isSpecBlank text := by
  cases h with
  | escaped hne => exact ⟨hne, fun hc ↦ hw.isBlank_eq_false (List.mem_cons_of_mem _ hc)⟩
  | plain _ => exact hw

theorem Stands.wellFormed {w : List Char} {d : Directive} (h : Stands w d)
    (hw : IsWord isSpecBlank w) : d.WellFormed := by
  cases h with
  | @hex count hcount =>
      cases count with
      | none => exact ⟨Nat.le_refl 1, by decide⟩
      | some n => exact hcount.isCount
  | ascii hcount =>
      rintro n rfl
      exact hcount.isCount
  | literal _ htext =>
      rw [WellFormed, String.toList_ofList]
      exact htext.isWord hw

theorem Derives.wellFormed {ws : List (List Char)} {ds : List Directive} (h : Derives ws ds)
    (hws : ∀ w ∈ ws, IsWord isSpecBlank w) : ∀ d ∈ ds, d.WellFormed := by
  induction h with
  | nil => simp
  | field _ _ _ ih =>
      refine List.forall_mem_cons.mpr ⟨trivial, ih ?_⟩
      exact fun w hw ↦ hws w (List.mem_cons_of_mem _ (List.mem_append_right _ hw))
  | word _ hd _ ih =>
      obtain ⟨hw, hws⟩ := List.forall_mem_cons.mp hws
      exact List.forall_mem_cons.mpr ⟨hd.wellFormed hw, ih hws⟩

/-- **What a decode spec says.**  A spec splits into words in one way only, and these words have one
derivation, which is what is read.  Every word belongs to exactly one directive: a field takes up
its code and two words for each transform, and other directives take up one word.  No literal is
empty and no run of bytes is. -/
theorem derives_iff_eq_ofSpec (spec : String) :
    ∃ ws, (∀ ws', Splits isSpecBlank spec.toList ws' ↔ ws' = ws) ∧
      (∀ ds, Derives ws ds ↔ ds = ofSpec spec) ∧
      ((ofSpec spec).map wordCount).sum = ws.length ∧
      ∀ d ∈ ofSpec spec, d.WellFormed := by
  have hsplit : Splits isSpecBlank spec.toList (words isSpecBlank spec.toList) := splits_words _
  have hderives : Derives (words isSpecBlank spec.toList) (ofSpec spec) := derives_ofWords _
  refine ⟨words isSpecBlank spec.toList, ?_, ?_, hderives.sum_wordCount,
    hderives.wellFormed hsplit.isWord⟩
  · intro ws'
    rw [← words_eq_iff_splits, eq_comm]
  · intro ds
    rw [← ofWords_eq_iff_derives, eq_comm, ofSpec]

example : ofSpec "g * 2 + h x04 x0 \\a" =
    [.field (.unsigned .w16) [⟨.mul, .exact 2⟩], .literal "+", .literal "h", .hex 4, .literal "x0",
      .literal "a"] := by
  cbv

end Directive

end LinkMonitor.Payload
