import LinkMonitor.Proofs.Table.Scanning
import LinkMonitor.Proofs.Text.Encoding
import LinkMonitor.Table.Writing
import LinkMonitor.Text.Blank

/-!
# How rows may be written

The same rows can be written in many ways.  A field may stand between quotes even if it need not
(`SpellsField`), a line may end in one of two ways (`IsLineEnd`), and between two rows there may be
empty lines and comments (`SpellsLines`).  The scanner finds the rows in all of them
(`SpellsRows.rowsFrom`).

The grammar speaks of characters and the scanner of bytes.  What the two have in common is that all
that matters to the scanner is ASCII, and that a byte of ASCII is always a character by itself.

A comment has to be ended by a line feed.  One that is not, at the end of a file, makes a row with
one empty field (`SpellsLines.rowsFrom_comment`).
-/

namespace LinkMonitor.Table

open LinkMonitor.Text Scanner

/-! ## Fields -/

/-- `SpellsField s cs`: the text `cs` may be written for a field that holds the text `s`. -/
inductive SpellsField (s : List Char) : List Char → Prop
  | bare : needsQuotes s = false → SpellsField s s
  | quoted : SpellsField s ('"' :: (doubleQuotes s ++ ['"']))

theorem encode_doubleQuotes (s : List Char) : encode (doubleQuotes s) = doubled (encode s) := by
  induction s with
  | nil => rfl
  | cons c s ih =>
      have hs : encode (doubleQuotes (c :: s)) =
          encode (if c = '"' then ['"', '"'] else [c]) ++ encode (doubleQuotes s) := by
        rw [← encode_append]
        rfl
      rw [hs, ih, encode_cons, doubled_append]
      by_cases hc : c = '"'
      · subst hc
        rfl
      · have hquote : quote ∉ String.utf8EncodeChar c := fun h ↦
          hc (eq_of_mem_utf8EncodeChar (d := '"') (by decide) h)
        simp [hc, doubled_eq_self hquote]

/-- The bytes of a field that needs no quotes separate nothing. -/
theorem plain_of_needsQuotes {s : List Char} (h : needsQuotes s = false) :
    ∀ b ∈ encode s, b ≠ comma ∧ b ≠ quote ∧ endsRecord b = false := by
  have hchar : ∀ c ∈ s, c ≠ ',' ∧ c ≠ '"' ∧ c ≠ '\r' ∧ c ≠ '\n' := by
    simpa [needsQuotes, and_assoc] using h
  have hbyte (d : Char) (hd : d.toNat < 0x80) (hs : d ∉ s) {b : UInt8} (hb : b ∈ encode s) :
      b ≠ UInt8.ofNat d.toNat := by
    rintro rfl
    exact hs ((mem_encode_iff hd).mp hb)
  intro b hb
  have hcomma : b ≠ comma := hbyte ',' (by decide) (fun h ↦ (hchar _ h).1 rfl) hb
  have hquote : b ≠ quote := hbyte '"' (by decide) (fun h ↦ (hchar _ h).2.1 rfl) hb
  have hreturn : b ≠ carriageReturn :=
    hbyte '\r' (by decide) (fun h ↦ (hchar _ h).2.2.1 rfl) hb
  have hfeed : b ≠ lineFeed := hbyte '\n' (by decide) (fun h ↦ (hchar _ h).2.2.2 rfl) hb
  exact ⟨hcomma, hquote, by simp [endsRecord, hfeed, hreturn]⟩

variable {s cs : List Char} {row : List (List Char)} {rows : List (List (List Char))}
  {fs : List (List UInt8)} {bs : List UInt8}

/-- A field, in front of what ends it, is what was meant. -/
theorem SpellsField.rowsFrom_append (h : SpellsField s cs) (hbs : bs.head? ≠ some quote) :
    rowsFrom .opening [] fs (encode cs ++ bs) = rowsFrom .bare (encode s).reverse fs bs := by
  cases h with
  | bare hs => exact rowsFrom_opening_bare (plain_of_needsQuotes hs) hbs
  | quoted =>
      have hq : String.utf8EncodeChar '"' = [quote] := rfl
      have hbytes : encode ('"' :: (doubleQuotes s ++ ['"'])) ++ bs =
          quote :: (doubled (encode s) ++ quote :: bs) := by
        simp [hq, encode_doubleQuotes]
      rw [hbytes, rowsFrom_opening_quoted (encode s) hbs]

/-! ## Rows -/

/-- `SpellsRow row cs`: the text `cs` is the fields of a row with commas between them. -/
inductive SpellsRow : List (List Char) → List Char → Prop
  | last {s cs : List Char} : SpellsField s cs → SpellsRow [s] cs
  | cons {s cs rest : List Char} {row : List (List Char)} : SpellsField s cs →
      SpellsRow row rest → SpellsRow (s :: row) (cs ++ ',' :: rest)

/-- Behind a row the scanner holds its last field and the fields before that. -/
theorem SpellsRow.exists_rowsFrom_eq (h : SpellsRow row cs) (hbs : bs.head? ≠ some quote)
    (fs : List (List UInt8)) :
    ∃ f fs', (f.reverse :: fs').reverse = fs.reverse ++ row.map encode ∧
      rowsFrom .opening [] fs (encode cs ++ bs) = rowsFrom .bare f fs' bs := by
  -- The fields in front pile up in `fs`, so that the induction is for any of them.
  induction h generalizing fs with
  | @last s cs h => exact ⟨(encode s).reverse, fs, by simp, h.rowsFrom_append hbs⟩
  | @cons s cs rest row h _ ih =>
      obtain ⟨f, fs', hfields, hrest⟩ := ih (encode s :: fs)
      refine ⟨f, fs', by simpa using hfields, ?_⟩
      have hbytes : encode (cs ++ ',' :: rest) ++ bs =
          encode cs ++ comma :: (encode rest ++ bs) := by
        rw [encode_append, List.append_assoc]
        rfl
      rw [hbytes, h.rowsFrom_append (by simp [comma, quote]), rowsFrom_bare_comma,
        List.reverse_reverse, hrest]

/-- A row begins with a blank or with one of the characters from `0` to `z`, so that it is taken
neither for an empty line nor for a comment. -/
def BeginsVisibly (row : List (List Char)) : Prop :=
  ∃ c s rest, row = (c :: s) :: rest ∧ (isBlank c = true ∨ '0' ≤ c ∧ c ≤ 'z')

/-- The first character of a row is a quote, or that of its first field. -/
theorem SpellsRow.head?_eq {c : Char} {rest : List (List Char)}
    (h : SpellsRow ((c :: s) :: rest) cs) :
    cs.head? = some '"' ∨ cs.head? = some c ∧ needsQuotes (c :: s) = false := by
  have hfield {cs' : List Char} (h : SpellsField (c :: s) cs') :
      cs'.head? = some '"' ∨ cs'.head? = some c ∧ needsQuotes (c :: s) = false := by
    cases h with
    | bare hs => exact .inr ⟨rfl, hs⟩
    | quoted => exact .inl rfl
  cases h with
  | last h => exact hfield h
  | @cons _ cs' rest' _ h _ =>
      rw [List.head?_append]
      rcases hfield h with hc | ⟨hc, hs⟩
      · exact .inl (by rw [hc]; rfl)
      · exact .inr ⟨by rw [hc]; rfl, hs⟩

/-- What a row begins with is no line end and no `#`, and lies below the byte order mark. -/
theorem SpellsRow.exists_eq_cons (h : SpellsRow row cs) (hrow : BeginsVisibly row) :
    ∃ c rest, cs = c :: rest ∧ c ∉ ['\n', '\r', '#'] ∧ c.toNat < 0xF000 := by
  obtain ⟨c, s, rest, rfl, hc⟩ := hrow
  rcases h.head?_eq with hhead | ⟨hhead, hs⟩
  · obtain ⟨rest, rfl⟩ := List.head?_eq_some_iff.mp hhead
    exact ⟨'"', rest, rfl, by decide⟩
  · obtain ⟨rest, rfl⟩ := List.head?_eq_some_iff.mp hhead
    refine ⟨c, rest, rfl, ?_, ?_⟩
    · simp only [List.mem_cons, List.not_mem_nil, or_false]
      rintro (rfl | rfl | rfl)
      · simp [needsQuotes] at hs
      · simp [needsQuotes] at hs
      · exact absurd hc (by decide)
    · rcases hc with hc | ⟨-, hc⟩
      · simp only [isBlank, Bool.or_eq_true, Bool.and_eq_true, decide_eq_true_eq, beq_iff_eq] at hc
        omega
      · have hz : c.toNat ≤ 'z'.toNat := hc
        have hvalue : 'z'.toNat = 0x7A := rfl
        omega

/-- The bytes of a character that begins a row. -/
theorem exists_utf8EncodeChar_eq_cons {c : Char} (hc : c ∉ ['\n', '\r', '#']) :
    ∃ b bs, String.utf8EncodeChar c = b :: bs ∧ endsRecord b = false ∧ b ≠ hash := by
  obtain ⟨b, bs, hbs⟩ := List.exists_cons_of_ne_nil (String.utf8EncodeChar_ne_nil (c := c))
  have hne (d : Char) (hd : d.toNat < 0x80) (hmem : d ∈ ['\n', '\r', '#']) :
      b ≠ UInt8.ofNat d.toNat := by
    rintro rfl
    have hcd : c = d := eq_of_mem_utf8EncodeChar hd (by simp [hbs])
    exact hc (hcd ▸ hmem)
  have hfeed : b ≠ lineFeed := hne '\n' (by decide) (by decide)
  have hreturn : b ≠ carriageReturn := hne '\r' (by decide) (by decide)
  exact ⟨b, bs, hbs, by simp [endsRecord, hfeed, hreturn], hne '#' (by decide) (by decide)⟩

/-- Between two rows, a row is begun. -/
theorem SpellsRow.rowsFrom_between (h : SpellsRow row cs) (hrow : BeginsVisibly row) :
    rowsFrom .between [] [] (encode cs ++ bs) = rowsFrom .opening [] [] (encode cs ++ bs) := by
  obtain ⟨c, rest, rfl, hc, -⟩ := h.exists_eq_cons hrow
  obtain ⟨b, bs', hb, hend, hhash⟩ := exists_utf8EncodeChar_eq_cons hc
  have hbytes : encode (c :: rest) ++ bs = b :: (bs' ++ encode rest ++ bs) := by
    rw [encode_cons, hb]
    rfl
  rw [hbytes, Scanner.rowsFrom_between hend hhash]

/-! ## Lines -/

/-- The two ways to end a line. -/
inductive IsLineEnd : List Char → Prop
  | lf : IsLineEnd ['\n']
  | crlf : IsLineEnd ['\r', '\n']

/-- `SpellsLines rows cs`: the text `cs` is made up of whole lines, which are the rows in order, and
empty lines and comments between them, in front of them and behind them. -/
inductive SpellsLines : List (List (List Char)) → List Char → Prop
  | nil : SpellsLines [] []
  | empty {e cs : List Char} {rows : List (List (List Char))} : IsLineEnd e →
      SpellsLines rows cs → SpellsLines rows (e ++ cs)
  | comment {note e cs : List Char} {rows : List (List (List Char))} : '\n' ∉ note →
      IsLineEnd e → SpellsLines rows cs → SpellsLines rows ('#' :: (note ++ (e ++ cs)))
  | row {text e cs : List Char} {row : List (List Char)} {rows : List (List (List Char))} :
      SpellsRow row text → IsLineEnd e → SpellsLines rows cs →
      SpellsLines (row :: rows) (text ++ (e ++ cs))

/-- `SpellsRows rows cs`: the text `cs` is whole lines, except that the last line may be a row
without a line end. -/
inductive SpellsRows : List (List (List Char)) → List Char → Prop
  | ended {rows : List (List (List Char))} {cs : List Char} : SpellsLines rows cs →
      SpellsRows rows cs
  | unended {rows : List (List (List Char))} {row : List (List Char)} {cs text : List Char} :
      SpellsLines rows cs → SpellsRow row text → SpellsRows (rows ++ [row]) (cs ++ text)

namespace IsLineEnd

variable {e : List Char} {f : List UInt8}

theorem encode_append (h : IsLineEnd e) (bs : List UInt8) :
    encode e ++ bs = lineFeed :: bs ∨ encode e ++ bs = carriageReturn :: lineFeed :: bs := by
  cases h with
  | lf => exact .inl rfl
  | crlf => exact .inr rfl

theorem head?_ne_quote (h : IsLineEnd e) : (encode e ++ bs).head? ≠ some quote := by
  rcases h.encode_append bs with he | he
  · rw [he, List.head?_cons]
    decide
  · rw [he, List.head?_cons]
    decide

theorem rowsFrom_between (h : IsLineEnd e) :
    rowsFrom .between [] [] (encode e ++ bs) = rowsFrom .between [] [] bs := by
  rcases h.encode_append bs with he | he
  · rw [he, rowsFrom_between_end rfl]
  · rw [he, rowsFrom_between_end rfl, rowsFrom_between_end rfl]

/-- A carriage return ends a row by itself, and the line feed behind it is passed over. -/
theorem rowsFrom_bare (h : IsLineEnd e) :
    rowsFrom .bare f fs (encode e ++ bs) =
      (f.reverse :: fs).reverse :: rowsFrom .between [] [] bs := by
  rcases h.encode_append bs with he | he
  · rw [he, rowsFrom_bare_end rfl]
  · rw [he, rowsFrom_bare_end rfl, rowsFrom_between_end rfl]

/-- A carriage return is part of a comment, which the line feed behind it ends. -/
theorem rowsFrom_comment (h : IsLineEnd e) :
    rowsFrom .comment f fs (encode e ++ bs) = rowsFrom .between f fs bs := by
  rcases h.encode_append bs with he | he
  · rw [he, rowsFrom_comment_lineFeed]
  · rw [he, Scanner.rowsFrom_comment (by decide), rowsFrom_comment_lineFeed]

end IsLineEnd

/-- A row at the end of a line. -/
theorem SpellsRow.rowsFrom_append {e : List Char} (h : SpellsRow row cs) (hrow : BeginsVisibly row)
    (he : IsLineEnd e) :
    rowsFrom .between [] [] (encode cs ++ (encode e ++ bs)) =
      row.map encode :: rowsFrom .between [] [] bs := by
  have hend : (encode e ++ bs).head? ≠ some quote := he.head?_ne_quote
  obtain ⟨f, fs, hfields, hrest⟩ := h.exists_rowsFrom_eq hend []
  rw [h.rowsFrom_between hrow, hrest, he.rowsFrom_bare, hfields]
  rfl

/-- A row at the end of a file. -/
theorem SpellsRow.rowsFrom_eq (h : SpellsRow row cs) (hrow : BeginsVisibly row) :
    rowsFrom .between [] [] (encode cs) = [row.map encode] := by
  have hend : ([] : List UInt8).head? ≠ some quote := by simp
  obtain ⟨f, fs, hfields, hrest⟩ := h.exists_rowsFrom_eq hend []
  rw [← List.append_nil (encode cs), h.rowsFrom_between hrow, hrest, rowsFrom_nil (by simp),
    hfields]
  rfl

theorem rowsFrom_between_note {note : List Char} (hnote : '\n' ∉ note) :
    rowsFrom .between [] [] (encode ('#' :: note) ++ bs) = rowsFrom .comment [] [] bs := by
  have hbytes : lineFeed ∉ encode note := mt (mem_encode_iff (d := '\n') (by decide)).mp hnote
  have hhash : encode ('#' :: note) ++ bs = hash :: (encode note ++ bs) := rfl
  rw [hhash, rowsFrom_between_hash, rowsFrom_comment_append hbytes]

/-- Whole lines are scanned as the rows among them. -/
theorem SpellsLines.rowsFrom_append (h : SpellsLines rows cs)
    (hrows : ∀ row ∈ rows, BeginsVisibly row) :
    rowsFrom .between [] [] (encode cs ++ bs) =
      rows.map (·.map encode) ++ rowsFrom .between [] [] bs := by
  -- Line by line; behind each of them the scanner stands between two rows and holds nothing.
  induction h with
  | nil => rfl
  | empty he _ ih => rw [encode_append, List.append_assoc, he.rowsFrom_between, ih hrows]
  | @comment note e cs rows hnote he _ ih =>
      have hbytes : encode ('#' :: (note ++ (e ++ cs))) ++ bs =
          encode ('#' :: note) ++ (encode e ++ (encode cs ++ bs)) := by
        simp
      rw [hbytes, rowsFrom_between_note hnote, he.rowsFrom_comment, ih hrows]
  | @row text e cs row rows htext he _ ih =>
      obtain ⟨hrow, hrows⟩ := List.forall_mem_cons.mp hrows
      have hbytes : encode (text ++ (e ++ cs)) ++ bs =
          encode text ++ (encode e ++ (encode cs ++ bs)) := by
        simp
      rw [hbytes, htext.rowsFrom_append hrow he, ih hrows]
      rfl

/-- A comment that nothing ends is a row with one empty field. -/
theorem SpellsLines.rowsFrom_comment {note : List Char} (h : SpellsLines rows cs)
    (hrows : ∀ row ∈ rows, BeginsVisibly row) (hnote : '\n' ∉ note) :
    rowsFrom .between [] [] (encode (cs ++ '#' :: note)) = rows.map (·.map encode) ++ [[[]]] := by
  have hend : rowsFrom .between [] [] (encode ('#' :: note) ++ []) = rowsFrom .comment [] [] [] :=
    rowsFrom_between_note hnote
  rw [List.append_nil, rowsFrom_nil (by simp)] at hend
  rw [encode_append, h.rowsFrom_append hrows, hend]
  rfl

/-- Rows are found however they are written. -/
theorem SpellsRows.rowsFrom_eq (h : SpellsRows rows cs) (hrows : ∀ row ∈ rows, BeginsVisibly row) :
    rowsFrom .between [] [] (encode cs) = rows.map (·.map encode) := by
  cases h with
  | ended h =>
      have hscan : rowsFrom .between [] [] (encode cs ++ []) =
          rows.map (·.map encode) ++ rowsFrom .between [] [] [] := h.rowsFrom_append hrows
      rwa [List.append_nil, rowsFrom_between_nil, List.append_nil] at hscan
  | @unended rows row cs text h htext =>
      have hrow : BeginsVisibly row := hrows row (by simp)
      have hbefore : ∀ row ∈ rows, BeginsVisibly row :=
        fun row hmem ↦ hrows row (List.mem_append_left _ hmem)
      rw [encode_append, h.rowsFrom_append hbefore, htext.rowsFrom_eq hrow, List.map_append]
      rfl

/-! ## Files -/

/-- The text begins below the byte order mark, or not at all. -/
def BeginsLow (cs : List Char) : Prop := ∀ c ∈ cs.head?, c.toNat < 0xF000

theorem BeginsLow.append {s t : List Char} (hs : BeginsLow s) (ht : BeginsLow t) :
    BeginsLow (s ++ t) := by
  cases s with
  | nil => exact ht
  | cons c s => exact hs

/-- A text that begins below the byte order mark is scanned from its first byte on. -/
theorem BeginsLow.map_fields_records (h : BeginsLow cs) :
    (records (encode cs)).map Record.fields = rowsFrom .between [] [] (encode cs) := by
  have hmark : ∀ bs, encode cs ≠ 0xEF :: bs := by
    intro bs hbs
    cases cs with
    | nil => cases hbs
    | cons c rest =>
        obtain ⟨b, bs', hb⟩ := List.exists_cons_of_ne_nil (String.utf8EncodeChar_ne_nil (c := c))
        have hne : (String.utf8EncodeChar c).head? ≠ some 0xEF := head?_utf8EncodeChar_ne (h c rfl)
        rw [encode_cons, hb, List.cons_append] at hbs
        rw [hb, (List.cons.inj hbs).1] at hne
        exact hne rfl
  have hrecords : records (encode cs) = scan {} (encode cs) := by
    unfold records
    split
    · rename_i hbs
      exact absurd hbs (hmark _)
    · rfl
  rw [hrecords]
  rfl

theorem SpellsRow.beginsLow (h : SpellsRow row cs) (hrow : BeginsVisibly row) : BeginsLow cs := by
  obtain ⟨c, rest, rfl, -, hc⟩ := h.exists_eq_cons hrow
  intro d hd
  obtain rfl := Option.some.inj hd
  exact hc

theorem SpellsLines.beginsLow (h : SpellsLines rows cs)
    (hrows : ∀ row ∈ rows, BeginsVisibly row) : BeginsLow cs := by
  induction h with
  | nil => simp [BeginsLow]
  | empty he _ ih =>
      refine BeginsLow.append ?_ (ih hrows)
      cases he <;> simp [BeginsLow]
  | comment => simp [BeginsLow]
  | row htext he _ ih =>
      obtain ⟨hrow, hrows⟩ := List.forall_mem_cons.mp hrows
      refine (htext.beginsLow hrow).append (BeginsLow.append ?_ (ih hrows))
      cases he <;> simp [BeginsLow]

theorem SpellsRows.beginsLow (h : SpellsRows rows cs) (hrows : ∀ row ∈ rows, BeginsVisibly row) :
    BeginsLow cs := by
  cases h with
  | ended h => exact h.beginsLow hrows
  | unended h htext =>
      refine (h.beginsLow fun row hmem ↦ hrows row (List.mem_append_left _ hmem)).append ?_
      exact htext.beginsLow (hrows _ (by simp))

/-- The rows of a file, however they are written. -/
theorem SpellsRows.map_fields_records (h : SpellsRows rows cs)
    (hrows : ∀ row ∈ rows, BeginsVisibly row) :
    (records (encode cs)).map Record.fields = rows.map (·.map encode) := by
  rw [(h.beginsLow hrows).map_fields_records, h.rowsFrom_eq hrows]

/-- The rows of a file that ends in the middle of a comment. -/
theorem SpellsLines.map_fields_records_comment {note : List Char} (h : SpellsLines rows cs)
    (hrows : ∀ row ∈ rows, BeginsVisibly row) (hnote : '\n' ∉ note) :
    (records (encode (cs ++ '#' :: note))).map Record.fields =
      rows.map (·.map encode) ++ [[[]]] := by
  have hlow : BeginsLow (cs ++ '#' :: note) := (h.beginsLow hrows).append (by simp [BeginsLow])
  rw [hlow.map_fields_records, h.rowsFrom_comment hrows hnote]

end LinkMonitor.Table
