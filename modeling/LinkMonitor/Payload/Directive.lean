import LinkMonitor.Payload.Field
import LinkMonitor.Text.Blank

/-!
# Decode specs

A decode spec is a list of words.  The code of a numeric field is followed by pairs of an operator
and a number; other words are runs of bytes or stand for themselves.
-/

namespace LinkMonitor.Payload

open LinkMonitor.Text

/-- Arithmetic on the value of a field. -/
structure Transform where
  operator : Operator
  operand : Number

/-- A step of a decode spec. -/
inductive Directive where
  /-- A numeric field, whose value goes through the transforms from left to right. -/
  | field (kind : Kind) (transforms : List Transform)
  /-- So many bytes in hexadecimal. -/
  | hex (count : Nat)
  /-- So many bytes as characters, or all that remain. -/
  | ascii (count : Option Nat)
  /-- A text that takes no bytes. -/
  | literal (text : String)

namespace Directive

/-- The count after the letter of a run of bytes: digits with a value of at least one that a word of
64 bits holds.  No digits mean no count. -/
def count? : List Char → Option (Option Nat)
  | [] => some none
  | cs => ((natural? 10 cs).filter fun n ↦ 0 < n ∧ n < UInt64.size).map some

/-- The run of bytes that a word asks for. -/
def run? : List Char → Option Directive
  | 'x' :: cs => (count? cs).map fun n ↦ .hex (n.getD 1)
  | 'a' :: cs => (count? cs).map .ascii
  | _ => none

/-- A word without the backslash that marks it as literal. -/
def unescape : List Char → List Char
  | '\\' :: c :: cs => c :: cs
  | w => w

/-- The directive of a word that begins no numeric field. -/
def ofWord (w : List Char) : Directive :=
  (run? w).getD (.literal (.ofList (unescape w)))

/-- The transforms at the front of a list of words, and the words after them. -/
def transforms : List (List Char) → List Transform × List (List Char)
  | op :: operand :: ws =>
    match Operator.ofWord? op, Number.ofWord? operand with
    | some o, some n => (⟨o, n⟩ :: (transforms ws).1, (transforms ws).2)
    | _, _ => ([], op :: operand :: ws)
  | ws => ([], ws)

theorem length_transforms_le (ws : List (List Char)) :
    (transforms ws).2.length ≤ ws.length := by
  fun_induction transforms ws with
  | case1 op operand ws o n ho hn ih => simp only [List.length_cons]; omega
  | case2 => exact Nat.le_refl _
  | case3 => exact Nat.le_refl _

/-- The directives that a list of words spells from left to right.  A numeric field takes all the
transforms that follow it. -/
def ofWords : List (List Char) → List Directive
  | [] => []
  | w :: ws =>
    match Kind.ofWord? w with
    | some k => .field k (transforms ws).1 :: ofWords (transforms ws).2
    | none => ofWord w :: ofWords ws
termination_by ws => ws.length
decreasing_by
  · have := length_transforms_le ws; simp only [List.length_cons]; omega
  · simp

/-- The directives of a decode spec. -/
def ofSpec (spec : String) : List Directive :=
  ofWords (words isSpecBlank spec.toList)

end Directive

end LinkMonitor.Payload
