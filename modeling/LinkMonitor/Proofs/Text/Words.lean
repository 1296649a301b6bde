import LinkMonitor.Text.Blank

/-!
# Words and the blanks around them

A blank cuts a text in two, and the words of the text are those of the one part and of the other
(`words_append_cons`).  All that is said of words here comes from this equation and from the case of
a text without blanks, which is a word itself.

`Splits` says how a text is made up of words and blanks without going through it in any order, and
there is one way only (`words_eq_iff_splits`).
-/

namespace LinkMonitor.Text

variable {blank : Char → Bool}

/-- Some characters, and no blanks among them. -/
structure IsWord (blank : Char → Bool) (w : List Char) : Prop where
  ne_nil : w ≠ []
  isBlank_eq_false {c : Char} : c ∈ w → blank c = false

instance (w : List Char) : Decidable (IsWord blank w) :=
  -- `any` runs over the word; an instance for `∀ c ∈ w` may run over all of `Char`.
  decidable_of_iff (w ≠ [] ∧ w.any blank = false)
    ⟨fun h ↦ ⟨h.1, fun hc ↦ by simpa using List.any_eq_false.mp h.2 _ hc⟩,
      fun h ↦ ⟨h.ne_nil, List.any_eq_false.mpr fun _ hc ↦ by simp [h.isBlank_eq_false hc]⟩⟩

/-! ## Cutting at a blank -/

theorem words_cons_ne_nil {c : Char} (hc : blank c = false) (cs : List Char) :
    words blank (c :: cs) ≠ [] := by
  simp only [words, hc, Bool.false_eq_true, if_false]
  split
  · exact List.cons_ne_nil _ _
  · cases words blank cs <;> exact List.cons_ne_nil _ _

theorem consWord_append {ws : List (List Char)} (hws : ws ≠ []) (c : Char)
    (ws' : List (List Char)) : consWord c (ws ++ ws') = consWord c ws ++ ws' := by
  cases ws with
  | nil => contradiction
  | cons w ws => rfl

theorem words_append_cons {c : Char} (hc : blank c = true) (s t : List Char) :
    words blank (s ++ c :: t) = words blank s ++ words blank t := by
  induction s with
  | nil => simp [words, hc]
  | cons x s ih =>
      cases hx : blank x with
      | true => rw [List.cons_append, words_cons_of_blank _ hx, words_cons_of_blank _ hx, ih]
      | false =>
          cases s with
          | nil => simp [words, hx, hc]
          | cons y s =>
              rw [List.cons_append, words, words, ih]
              cases hy : blank y with
              | true => simp [hx, hy]
              | false => simp [hx, hy, consWord_append (words_cons_ne_nil hy s)]

namespace IsWord

variable {w : List Char}

/-- A text without blanks is one word. -/
theorem words_eq (hw : IsWord blank w) : words blank w = [w] := by
  obtain ⟨hne, hblank⟩ := hw
  induction w with
  | nil => contradiction
  | cons x w ih =>
      have hx : blank x = false := hblank (List.mem_cons_self ..)
      cases w with
      | nil => simp [words, hx]
      | cons y w =>
          have hy : blank y = false := hblank (List.mem_cons_of_mem _ (List.mem_cons_self ..))
          rw [words, ih (List.cons_ne_nil y w) fun hc ↦ hblank (List.mem_cons_of_mem _ hc)]
          simp [hx, hy, consWord]

theorem words_append_cons (hw : IsWord blank w) {c : Char} (hc : blank c = true)
    (cs : List Char) : words blank (w ++ c :: cs) = w :: words blank cs := by
  rw [Text.words_append_cons hc, hw.words_eq]
  rfl

theorem cons (hw : IsWord blank w) {c : Char} (hc : blank c = false) : IsWord blank (c :: w) := by
  refine ⟨List.cons_ne_nil c w, ?_⟩
  intro x hx
  rcases List.mem_cons.mp hx with rfl | hx
  · exact hc
  · exact hw.isBlank_eq_false hx

end IsWord

theorem isWord_singleton {c : Char} (hc : blank c = false) : IsWord blank [c] :=
  ⟨by simp, fun hx ↦ List.mem_singleton.mp hx ▸ hc⟩

/-- Words with a blank between any two of them are the words of the text. -/
theorem words_intercalate {c : Char} (hc : blank c = true) {ws : List (List Char)}
    (hws : ∀ w ∈ ws, IsWord blank w) : words blank ([c].intercalate ws) = ws := by
  induction ws with
  | nil => rfl
  | cons w ws ih =>
      obtain ⟨hw, hws⟩ := List.forall_mem_cons.mp hws
      cases ws with
      | nil =>
          rw [List.intercalate_singleton]
          exact hw.words_eq
      | cons w' ws =>
          rw [List.intercalate_cons_cons, List.append_assoc, List.singleton_append,
            hw.words_append_cons hc, ih hws]

/-- What joins texts puts nothing in but itself. -/
theorem mem_of_mem_intercalate {α : Type} {a c : α} {ws : List (List α)}
    (h : c ∈ [a].intercalate ws) : c = a ∨ ∃ w ∈ ws, c ∈ w := by
  induction ws with
  | nil => cases h
  | cons w ws ih =>
      cases ws with
      | nil => exact .inr ⟨w, by simp, by simpa using h⟩
      | cons w' ws =>
          simp only [List.intercalate_cons_cons, List.mem_append, List.mem_singleton] at h
          rcases h with (h | h) | h
          · exact .inr ⟨w, by simp, h⟩
          · exact .inl h
          · rcases ih h with rfl | ⟨v, hv, hc⟩
            · exact .inl rfl
            · exact .inr ⟨v, List.mem_cons_of_mem _ hv, hc⟩

/-! ## Splitting a text -/

/-- `Splits blank cs ws`: the text `cs` is made up of the words `ws`, with blanks between any two of
them, and maybe before the first and behind the last. -/
inductive Splits (blank : Char → Bool) : List Char → List (List Char) → Prop
  | nil : Splits blank [] []
  | /-- A blank before a word or at the end. -/
    blank {c : Char} {cs : List Char} {ws : List (List Char)} : blank c = true →
      Splits blank cs ws → Splits blank (c :: cs) ws
  | /-- A word and the blank behind it. -/
    word {w : List Char} {c : Char} {cs : List Char} {ws : List (List Char)} : IsWord blank w →
      blank c = true → Splits blank cs ws → Splits blank (w ++ c :: cs) (w :: ws)
  | /-- A last word with nothing behind it. -/
    last {w : List Char} : IsWord blank w → Splits blank w [w]

/-- A character before a word goes to the word. -/
theorem Splits.cons_of_not_blank {c d : Char} (hc : blank c = false) (hd : blank d = false)
    {cs : List Char} {ws : List (List Char)} (h : Splits blank (d :: cs) ws) :
    Splits blank (c :: d :: cs) (consWord c ws) := by
  generalize hs : d :: cs = s at h
  cases h with
  | nil => contradiction
  | blank hx _ =>
      obtain ⟨rfl, -⟩ := List.cons.inj hs
      simp [hd] at hx
  | word hw hx h => exact .word (hw.cons hc) hx h
  | last hw => exact .last (hw.cons hc)

theorem splits_words : ∀ cs : List Char, Splits blank cs (words blank cs)
  | [] => .nil
  | c :: cs => by
      cases hc : blank c with
      | true =>
          rw [words_cons_of_blank cs hc]
          exact .blank hc (splits_words cs)
      | false =>
          have hword : IsWord blank [c] := isWord_singleton hc
          match cs with
          | [] =>
              rw [hword.words_eq]
              exact .last hword
          | d :: cs =>
              cases hd : blank d with
              | true =>
                  have hwords : words blank (c :: d :: cs) = [c] :: words blank cs :=
                    hword.words_append_cons hd cs
                  rw [hwords]
                  exact .word hword hd (splits_words cs)
              | false =>
                  have hwords : words blank (c :: d :: cs) =
                      consWord c (words blank (d :: cs)) := by
                    rw [words, hc]
                    simp [hd]
                  rw [hwords]
                  exact (splits_words (d :: cs)).cons_of_not_blank hc hd

theorem Splits.words_eq {cs : List Char} {ws : List (List Char)} (h : Splits blank cs ws) :
    words blank cs = ws := by
  induction h with
  | nil => rfl
  | blank hc _ ih => rw [words_cons_of_blank _ hc, ih]
  | word hw hc _ ih => rw [hw.words_append_cons hc, ih]
  | last hw => exact hw.words_eq

theorem words_eq_iff_splits {cs : List Char} {ws : List (List Char)} :
    words blank cs = ws ↔ Splits blank cs ws := by
  constructor
  · rintro rfl
    exact splits_words cs
  · exact Splits.words_eq

theorem Splits.isWord {cs : List Char} {ws : List (List Char)} (h : Splits blank cs ws) :
    ∀ w ∈ ws, IsWord blank w := by
  induction h with
  | nil => simp
  | blank _ _ ih => exact ih
  | word hw _ _ ih => exact List.forall_mem_cons.mpr ⟨hw, ih⟩
  | last hw => simpa using hw

end LinkMonitor.Text
