import LinkMonitor.Text.Numeral

/-!
# Documents of keys and values

The part of TOML that settings are written in: keys with a value each, which is a boolean, a whole
number, a text or a list of texts.  Documents with tables, dates or other numbers are refused here,
as no setting has such a value.
-/

namespace LinkMonitor.Document

open LinkMonitor.Text

/-- A value that a setting can have. -/
inductive Value where
  | boolean (b : Bool)
  | integer (n : Int)
  | text (s : String)
  | texts (ss : List String)
deriving DecidableEq, Repr

/-- Spaces and tabs separate the parts of a line. -/
def isGap (c : Char) : Bool := c == ' ' || c == '\t'

/-- The characters that stand for themselves in comments and texts: a tab, and all that are not
control characters of ASCII. -/
def isPlain (c : Char) : Bool := c == '\t' || (0x20 ≤ c.toNat && c.toNat != 0x7F)

/-- What follows a line end. -/
def afterBreak? : List Char → Option (List Char)
  | '\n' :: cs => some cs
  | '\r' :: '\n' :: cs => some cs
  | _ => none

/-- What follows gaps, line ends and comments, the first of which may have begun before. -/
def skipBreaks (inComment : Bool) : List Char → List Char
  | [] => []
  | c :: cs =>
    if inComment && isPlain c then skipBreaks true cs
    else if isGap c || (afterBreak? (c :: cs)).isSome then skipBreaks false cs
    else if c == '#' then skipBreaks true cs
    else c :: cs

/-- What follows the rest of a line that holds nothing but a comment. -/
def afterLine? (s : List Char) : Option (List Char) :=
  let rest := match s.dropWhile isGap with
    | '#' :: cs => cs.dropWhile isPlain
    | cs => cs
  if rest.isEmpty then some [] else afterBreak? rest

/-! ## Texts -/

/-- What a reader gives: a value and the characters after it. -/
abbrev Result (α : Type) := Option (α × List Char)

def consChar (c : Char) (r : Result (List Char)) : Result (List Char) :=
  r.map fun (text, rest) ↦ (c :: text, rest)

/-- The character that a backslash and a letter stand for. -/
def escape? : Char → Option Char
  | 'b' => some '\x08'
  | 't' => some '\t'
  | 'n' => some '\n'
  | 'f' => some '\x0c'
  | 'r' => some '\r'
  | '"' => some '"'
  | '\\' => some '\\'
  | _ => none

/-- The character whose number is given in hexadecimal. -/
def scalar? (digits : List Char) : Option Char :=
  (natural? 16 digits).bind fun n ↦ if n.isValidChar then some (Char.ofNat n) else none

/-- The rest of a text in double quotes. -/
def basic? : List Char → Result (List Char)
  | [] => none
  | '"' :: cs => some ([], cs)
  | '\\' :: 'u' :: d₁ :: d₂ :: d₃ :: d₄ :: cs =>
    (scalar? [d₁, d₂, d₃, d₄]).bind fun x ↦ consChar x (basic? cs)
  | '\\' :: 'U' :: d₁ :: d₂ :: d₃ :: d₄ :: d₅ :: d₆ :: d₇ :: d₈ :: cs =>
    (scalar? [d₁, d₂, d₃, d₄, d₅, d₆, d₇, d₈]).bind fun x ↦ consChar x (basic? cs)
  | '\\' :: e :: cs => (escape? e).bind fun x ↦ consChar x (basic? cs)
  | c :: cs => if isPlain c && c != '\\' then consChar c (basic? cs) else none

/-- The rest of a text in single quotes. -/
def literal? : List Char → Result (List Char)
  | [] => none
  | '\'' :: cs => some ([], cs)
  | c :: cs => if isPlain c then consChar c (literal? cs) else none

/-- Whether a line holds nothing more than gaps. -/
def lineEnds (s : List Char) : Bool :=
  (afterBreak? (s.dropWhile isGap)).isSome

/-- The rest of a text of several lines in triple double quotes.  A backslash at the end of a line
folds it: the gaps and line ends up to the next other character are left out. -/
def longBasic? (folding : Bool) : List Char → Result (List Char)
  | [] => none
  | '"' :: '"' :: '"' :: '"' :: '"' :: cs => some (['"', '"'], cs)
  | '"' :: '"' :: '"' :: '"' :: cs => some (['"'], cs)
  | '"' :: '"' :: '"' :: cs => some ([], cs)
  | '\r' :: '\n' :: cs =>
    if folding then longBasic? true cs else consChar '\n' (longBasic? false cs)
  | '\n' :: cs => if folding then longBasic? true cs else consChar '\n' (longBasic? false cs)
  | '\\' :: 'u' :: d₁ :: d₂ :: d₃ :: d₄ :: cs =>
    (scalar? [d₁, d₂, d₃, d₄]).bind fun x ↦ consChar x (longBasic? false cs)
  | '\\' :: 'U' :: d₁ :: d₂ :: d₃ :: d₄ :: d₅ :: d₆ :: d₇ :: d₈ :: cs =>
    (scalar? [d₁, d₂, d₃, d₄, d₅, d₆, d₇, d₈]).bind fun x ↦ consChar x (longBasic? false cs)
  | '\\' :: e :: cs =>
    if lineEnds (e :: cs) then longBasic? true cs
    else (escape? e).bind fun x ↦ consChar x (longBasic? false cs)
  | c :: cs =>
    if folding && isGap c then longBasic? true cs
    else if isPlain c && c != '\\' then consChar c (longBasic? false cs)
    else none

/-- The rest of a text of several lines in triple single quotes. -/
def longLiteral? : List Char → Result (List Char)
  | [] => none
  | '\'' :: '\'' :: '\'' :: '\'' :: '\'' :: cs => some (['\'', '\''], cs)
  | '\'' :: '\'' :: '\'' :: '\'' :: cs => some (['\''], cs)
  | '\'' :: '\'' :: '\'' :: cs => some ([], cs)
  | '\r' :: '\n' :: cs => consChar '\n' (longLiteral? cs)
  | c :: cs => if isPlain c || c == '\n' then consChar c (longLiteral? cs) else none

/-- A text in quotes of any kind.  A line end right behind triple quotes is no part of it. -/
def text? : List Char → Result String
  | '"' :: '"' :: '"' :: cs => (longBasic? false ((afterBreak? cs).getD cs)).map asString
  | '\'' :: '\'' :: '\'' :: cs => (longLiteral? ((afterBreak? cs).getD cs)).map asString
  | '"' :: cs => (basic? cs).map asString
  | '\'' :: cs => (literal? cs).map asString
  | _ => none
where
  asString : List Char × List Char → String × List Char
    | (text, rest) => (.ofList text, rest)

/-! ## Numbers, lists and lines -/

/-- Digits without the underscores, each of which must stand between two of them. -/
def dropUnderscores? : List Char → Option (List Char)
  | [] | '_' :: _ => none
  | [c] => some [c]
  | c :: '_' :: cs => (dropUnderscores? cs).map (c :: ·)
  | c :: cs => (dropUnderscores? cs).map (c :: ·)

/-- A number in decimal, which begins with a zero only if that is all. -/
def decimal? (s : List Char) : Option Nat :=
  match s with
  | '0' :: _ :: _ => none
  | _ => (dropUnderscores? s).bind (natural? 10)

/-- A whole number of 64 bits. -/
def number? (s : List Char) : Option Int :=
  let value : Option Int := match s with
    | '0' :: 'x' :: cs => ((dropUnderscores? cs).bind (natural? 16)).map Int.ofNat
    | '0' :: 'o' :: cs => ((dropUnderscores? cs).bind (natural? 8)).map Int.ofNat
    | '0' :: 'b' :: cs => ((dropUnderscores? cs).bind (natural? 2)).map Int.ofNat
    | '-' :: cs => (decimal? cs).map fun n ↦ -(n : Int)
    | '+' :: cs => (decimal? cs).map Int.ofNat
    | cs => (decimal? cs).map Int.ofNat
  value.filter fun n ↦ Int64.minValue.toInt ≤ n && n ≤ Int64.maxValue.toInt

/-- The texts of a list behind its opening bracket.  A comma may follow the last. -/
def texts? (s : List Char) : Result (List String) :=
  match skipBreaks false s with
  | ']' :: cs => some ([], cs)
  | item =>
    match text? item with
    | none => none
    | some (t, rest) =>
      match skipBreaks false rest with
      | ']' :: cs => some ([t], cs)
      | ',' :: cs =>
        if cs.length < s.length then (texts? cs).map fun (ts, rest) ↦ (t :: ts, rest) else none
      | _ => none
termination_by s.length

/-- The characters of numbers and names. -/
def isNameChar (c : Char) : Bool := c.isAlphanum || c == '_' || c == '-'

def value? (s : List Char) : Result Value :=
  match s with
  | '[' :: cs => (texts? cs).map fun (ts, rest) ↦ (.texts ts, rest)
  | '"' :: _ | '\'' :: _ => (text? s).map fun (t, rest) ↦ (.text t, rest)
  | _ =>
    let isWordChar c := isNameChar c || c == '+'
    let rest := s.dropWhile isWordChar
    match s.takeWhile isWordChar with
    | ['t', 'r', 'u', 'e'] => some (.boolean true, rest)
    | ['f', 'a', 'l', 's', 'e'] => some (.boolean false, rest)
    | word => (number? word).map fun n ↦ (.integer n, rest)

/-- The key of a line: a name, or any text in simple quotes. -/
def key? (s : List Char) : Result String :=
  match s with
  | '"' :: cs => (basic? cs).map fun (t, rest) ↦ (.ofList t, rest)
  | '\'' :: cs => (literal? cs).map fun (t, rest) ↦ (.ofList t, rest)
  | _ =>
    let name := s.takeWhile isNameChar
    if name.isEmpty then none else some (.ofList name, s.dropWhile isNameChar)

/-- A key, an equals sign and a value on a line of their own. -/
def line? (s : List Char) : Option ((String × Value) × List Char) := do
  let (key, rest) ← key? s
  let '=' :: rest := rest.dropWhile isGap | none
  let (value, rest) ← value? (rest.dropWhile isGap)
  let rest ← afterLine? rest
  return ((key, value), rest)

/-- The entries of a document in order. -/
def entries? (s : List Char) : Option (List (String × Value)) :=
  match skipBreaks false s with
  | [] => some []
  | line =>
    match line? line with
    | none => none
    | some (entry, rest) =>
      if rest.length < s.length then (entries? rest).map (entry :: ·) else none
termination_by s.length

/-- The entries of a text, which may begin with a byte order mark.  No key may occur twice. -/
def parse? (text : String) : Option (List (String × Value)) :=
  let body := match text.toList with
    | '\uFEFF' :: cs => cs
    | cs => cs
  (entries? body).filter fun entries ↦ (entries.map (·.1)).Nodup

end LinkMonitor.Document
