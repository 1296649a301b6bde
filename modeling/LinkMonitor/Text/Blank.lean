/-!
# Blanks, words and trimming

Two sets of blanks are in use: that of Unicode, for typed bytes and the columns of catalogs, and a
smaller one of ASCII, for decode specs.
-/

namespace LinkMonitor.Text

/-- The characters with the Unicode property `White_Space`. -/
def isBlank (c : Char) : Bool :=
  let n := c.toNat
  (0x09 ≤ n && n ≤ 0x0D) || n == 0x20 || n == 0x85 || n == 0xA0 || n == 0x1680 ||
    (0x2000 ≤ n && n ≤ 0x200A) || n == 0x2028 || n == 0x2029 || n == 0x202F ||
    n == 0x205F || n == 0x3000

/-- The blanks between the words of a decode spec: space, tab, line feed, form feed and
carriage return. -/
def isSpecBlank (c : Char) : Bool :=
  c == ' ' || c == '\t' || c == '\n' || c == '\x0c' || c == '\r'

/-- A character put in front of the first word of a list. -/
def consWord (c : Char) : List (List Char) → List (List Char)
  | [] => [[c]]
  | w :: ws => (c :: w) :: ws

/-- The longest runs of characters that are not blank, in order. -/
def words (blank : Char → Bool) : List Char → List (List Char)
  | [] => []
  | c :: cs =>
    if blank c then words blank cs
    else if cs.head?.all blank then [c] :: words blank cs
    else consWord c (words blank cs)

/-- A text without the blanks at its two ends. -/
def trim (blank : Char → Bool) (s : List Char) : List Char :=
  ((s.dropWhile blank).reverse.dropWhile blank).reverse

variable {blank : Char → Bool}

@[simp] theorem words_nil : words blank [] = [] := rfl

theorem words_cons_of_blank {c : Char} (cs : List Char) (h : blank c = true) :
    words blank (c :: cs) = words blank cs := by
  simp [words, h]

theorem isBlank_of_isSpecBlank {c : Char} (h : isSpecBlank c = true) : isBlank c = true := by
  simp only [isSpecBlank, Bool.or_eq_true, beq_iff_eq] at h
  rcases h with (((rfl | rfl) | rfl) | rfl) | rfl <;> rfl

end LinkMonitor.Text
