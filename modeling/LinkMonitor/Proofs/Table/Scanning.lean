import LinkMonitor.Table.Records

/-!
# What a scanner finds

The equations of the automaton are stated first, one for each mode and each kind of byte.  They say
how a scanner goes on, with the places that it keeps track of.  The equations of fields and of
comments follow from them by induction.

Places matter for messages about faults and for nothing else.  `rowsFrom` leaves them out: it gives
the fields of the records that a scanner has before it, from its mode and the fields that it holds.
`rows_eq_rowsFrom` says that this is no other scanner, so that each equation holds of `rowsFrom` as
well.
-/

namespace LinkMonitor.Table

/-! ## Places -/

namespace Position

/-- The place behind bytes that follow a place. -/
def past (p : Position) (bs : List UInt8) : Position :=
  ⟨p.record, p.line + bs.count lineFeed, p.byte + bs.length⟩

/-- The place between two records, of which the first ends here. -/
def nextRecord (p : Position) : Position := { p with record := p.record + 1 }

theorem past_append (p : Position) (s t : List UInt8) : p.past (s ++ t) = (p.past s).past t := by
  simp only [past, List.count_append, List.length_append, Nat.add_assoc]

theorem past_cons (p : Position) (b : UInt8) (bs : List UInt8) :
    p.past (b :: bs) = (p.past [b]).past bs :=
  past_append p [b] bs

end Position

namespace Scanner

theorem pass_eq (s : Scanner) (b : UInt8) : s.pass b = { s with here := s.here.past [b] } := by
  by_cases hb : b = lineFeed
  · simp [pass, Position.past, hb]
  · simp [pass, Position.past, hb]

variable {mode : Mode} {f : List UInt8} {fs : List (List UInt8)} {start here : Position} {b : UInt8}
  {bs : List UInt8}

/-! ## The automaton -/

/-- Between two records line ends are passed over. -/
theorem scan_between_end (hb : endsRecord b = true) :
    scan ⟨.between, f, fs, start, here⟩ (b :: bs) =
      scan ⟨.between, f, fs, start, here.past [b]⟩ bs := by
  simp [scan, step, pass_eq, hb]

theorem scan_between_hash :
    scan ⟨.between, f, fs, start, here⟩ (hash :: bs) =
      scan ⟨.comment, f, fs, start, here.past [hash]⟩ bs := by
  have hend : endsRecord hash = false := rfl
  simp [scan, step, pass_eq, hend]

theorem scan_comment_lineFeed :
    scan ⟨.comment, f, fs, start, here⟩ (lineFeed :: bs) =
      scan ⟨.between, f, fs, start, here.past [lineFeed]⟩ bs := by
  simp [scan, step, pass_eq]

theorem scan_comment (hb : b ≠ lineFeed) :
    scan ⟨.comment, f, fs, start, here⟩ (b :: bs) =
      scan ⟨.comment, f, fs, start, here.past [b]⟩ bs := by
  simp [scan, step, pass_eq, hb]

theorem scan_between (hb : endsRecord b = false) (hh : b ≠ hash) :
    scan ⟨.between, f, fs, start, here⟩ (b :: bs) =
      scan ⟨.opening, f, fs, start, here⟩ (b :: bs) := by
  simp [scan, step, pass_eq, hb, hh, openField, separate, endField, push]

theorem scan_opening_quote :
    scan ⟨.opening, f, fs, start, here⟩ (quote :: bs) =
      scan ⟨.quoted, f, fs, start, here.past [quote]⟩ bs := by
  simp [scan, step, pass_eq, openField]

theorem scan_opening (hbs : bs.head? ≠ some quote) :
    scan ⟨.opening, f, fs, start, here⟩ bs = scan ⟨.bare, f, fs, start, here⟩ bs := by
  cases bs with
  | nil => rfl
  | cons b bs =>
      have hb : b ≠ quote := by simpa using hbs
      simp [scan, step, pass_eq, hb, openField, separate, endField, endRecord, push, record]

theorem scan_bare_comma :
    scan ⟨.bare, f, fs, start, here⟩ (comma :: bs) =
      scan ⟨.opening, [], f.reverse :: fs, start, here.past [comma]⟩ bs := by
  simp [scan, step, pass_eq, separate, endField]

theorem scan_bare_end (hb : endsRecord b = true) :
    scan ⟨.bare, f, fs, start, here⟩ (b :: bs) =
      ⟨start, (f.reverse :: fs).reverse⟩ ::
        scan ⟨.between, [], [], (here.past [b]).nextRecord, (here.past [b]).nextRecord⟩ bs := by
  have hc : b ≠ comma := by
    rintro rfl
    contradiction
  simp [scan, step, pass_eq, separate, hb, hc, endRecord, record, Position.nextRecord]

theorem scan_bare (hc : b ≠ comma) (hb : endsRecord b = false) :
    scan ⟨.bare, f, fs, start, here⟩ (b :: bs) =
      scan ⟨.bare, b :: f, fs, start, here.past [b]⟩ bs := by
  simp [scan, step, pass_eq, separate, hb, hc, push]

theorem scan_quoted_quote :
    scan ⟨.quoted, f, fs, start, here⟩ (quote :: bs) =
      scan ⟨.closing, f, fs, start, here.past [quote]⟩ bs := by
  simp [scan, step, pass_eq]

theorem scan_quoted (hb : b ≠ quote) :
    scan ⟨.quoted, f, fs, start, here⟩ (b :: bs) =
      scan ⟨.quoted, b :: f, fs, start, here.past [b]⟩ bs := by
  simp [scan, step, pass_eq, hb, push]

theorem scan_closing_quote :
    scan ⟨.closing, f, fs, start, here⟩ (quote :: bs) =
      scan ⟨.quoted, quote :: f, fs, start, here.past [quote]⟩ bs := by
  simp [scan, step, pass_eq, push]

theorem scan_closing (hbs : bs.head? ≠ some quote) :
    scan ⟨.closing, f, fs, start, here⟩ bs = scan ⟨.bare, f, fs, start, here⟩ bs := by
  cases bs with
  | nil => rfl
  | cons b bs =>
      have hb : b ≠ quote := by simpa using hbs
      simp [scan, step, pass_eq, hb, separate, endField, endRecord, push, record]

/-- Where the bytes end, so does the record. -/
theorem scan_nil (hmode : mode ≠ .between) :
    scan ⟨mode, f, fs, start, here⟩ [] = [⟨start, (f.reverse :: fs).reverse⟩] := by
  simp [scan, finish, hmode, record]

/-! ## Fields -/

/-- Bytes with every quote doubled. -/
def doubled (bs : List UInt8) : List UInt8 :=
  bs.flatMap fun b ↦ if b = quote then [quote, quote] else [b]

@[simp] theorem doubled_append (s t : List UInt8) : doubled (s ++ t) = doubled s ++ doubled t :=
  List.flatMap_append

theorem doubled_cons_quote (bs : List UInt8) :
    doubled (quote :: bs) = quote :: quote :: doubled bs := by
  simp [doubled]

theorem doubled_cons (hb : b ≠ quote) (bs : List UInt8) : doubled (b :: bs) = b :: doubled bs := by
  simp [doubled, hb]

theorem doubled_eq_self (h : quote ∉ bs) : doubled bs = bs := by
  induction bs with
  | nil => rfl
  | cons b bs ih =>
      rw [List.mem_cons, not_or] at h
      rw [doubled_cons (Ne.symm h.1), ih h.2]

/-- A field without quotes takes bytes up to the end of the field. -/
theorem scan_bare_append {s : List UInt8} (hs : ∀ b ∈ s, b ≠ comma ∧ endsRecord b = false) :
    scan ⟨.bare, f, fs, start, here⟩ (s ++ bs) =
      scan ⟨.bare, s.reverse ++ f, fs, start, here.past s⟩ bs := by
  induction s generalizing f here with
  | nil => rfl
  | cons b s ih =>
      obtain ⟨hc, hb⟩ := hs b (List.mem_cons_self ..)
      rw [List.cons_append, scan_bare hc hb, ih fun b' hb' ↦ hs b' (List.mem_cons_of_mem _ hb'),
        ← Position.past_cons, List.reverse_cons, List.append_assoc, List.singleton_append]

/-- A quoted field takes all bytes, with quotes in pairs. -/
theorem scan_quoted_append (s : List UInt8) :
    scan ⟨.quoted, f, fs, start, here⟩ (doubled s ++ bs) =
      scan ⟨.quoted, s.reverse ++ f, fs, start, here.past (doubled s)⟩ bs := by
  induction s generalizing f here with
  | nil => rfl
  | cons b s ih =>
      rw [List.reverse_cons, List.append_assoc, List.singleton_append]
      by_cases hb : b = quote
      · subst hb
        rw [doubled_cons_quote, List.cons_append, List.cons_append, scan_quoted_quote,
          scan_closing_quote, ih, ← Position.past_cons, ← Position.past_cons]
      · rw [doubled_cons hb, List.cons_append, scan_quoted hb, ih, ← Position.past_cons]

/-- A field without quotes, in front of what ends it. -/
theorem scan_opening_bare {s : List UInt8} (hs : ∀ b ∈ s, b ≠ comma ∧ endsRecord b = false)
    (hhead : (s ++ bs).head? ≠ some quote) :
    scan ⟨.opening, [], fs, start, here⟩ (s ++ bs) =
      scan ⟨.bare, s.reverse, fs, start, here.past s⟩ bs := by
  rw [scan_opening hhead, scan_bare_append hs, List.append_nil]

/-- A field in quotes, in front of what ends it. -/
theorem scan_opening_quoted (s : List UInt8) (hbs : bs.head? ≠ some quote) :
    scan ⟨.opening, [], fs, start, here⟩ (quote :: (doubled s ++ quote :: bs)) =
      scan ⟨.bare, s.reverse, fs, start, here.past (quote :: (doubled s ++ [quote]))⟩ bs := by
  rw [scan_opening_quote, scan_quoted_append, scan_quoted_quote, scan_closing hbs,
    List.append_nil, ← Position.past_append, ← Position.past_cons]

/-! ## Comments -/

/-- A comment goes on up to the end of its line. -/
theorem scan_comment_append {s : List UInt8} (hs : lineFeed ∉ s) :
    scan ⟨.comment, f, fs, start, here⟩ (s ++ bs) =
      scan ⟨.comment, f, fs, start, here.past s⟩ bs := by
  induction s generalizing here with
  | nil => rfl
  | cons b s ih =>
      rw [List.mem_cons, not_or] at hs
      rw [List.cons_append, scan_comment (Ne.symm hs.1), ih hs.2, ← Position.past_cons]

/-! ## Places do not matter -/

/-- The fields of the records that a scanner has before it. -/
def rows (s : Scanner) (bs : List UInt8) : List (List (List UInt8)) :=
  (s.scan bs).map Record.fields

/-- Two scanners that differ in places only. -/
structure Alike (s t : Scanner) : Prop where
  mode : s.mode = t.mode
  field : s.field = t.field
  fields : s.fields = t.fields

/-- Two outcomes of a step that differ in places only. -/
structure AlikeAfter (x y : Scanner × Option Record) : Prop where
  scanner : Alike x.1 y.1
  record : x.2.map Record.fields = y.2.map Record.fields

namespace Alike

variable {s t : Scanner}

theorem separate (h : Alike s t) (b : UInt8) : AlikeAfter (s.separate b) (t.separate b) := by
  obtain ⟨hm, hf, hfs⟩ := h
  simp only [Scanner.separate]
  split
  · exact ⟨⟨rfl, rfl, by simp [endField, hf, hfs]⟩, rfl⟩
  · split
    · exact ⟨⟨rfl, rfl, rfl⟩, by simp [record, hf, hfs]⟩
    · exact ⟨⟨rfl, by simp [push, hf], hfs⟩, rfl⟩

theorem openField (h : Alike s t) (b : UInt8) : AlikeAfter (s.openField b) (t.openField b) := by
  simp only [Scanner.openField]
  split
  · exact ⟨⟨rfl, h.field, h.fields⟩, rfl⟩
  · exact h.separate b

theorem push (h : Alike s t) (b : UInt8) (mode : Mode) : Alike (s.push b mode) (t.push b mode) :=
  ⟨rfl, by simp [Scanner.push, h.field], h.fields⟩

theorem step (h : Alike s t) (b : UInt8) : AlikeAfter (s.step b) (t.step b) := by
  have hp : Alike (s.pass b) (t.pass b) := ⟨h.mode, h.field, h.fields⟩
  have hmode (mode : Mode) : Alike { s.pass b with mode } { t.pass b with mode } :=
    ⟨rfl, h.field, h.fields⟩
  simp only [Scanner.step, show (s.pass b).mode = (t.pass b).mode from h.mode]
  split
  · split
    · exact ⟨hp, rfl⟩
    · split
      · exact ⟨hmode _, rfl⟩
      · exact hp.openField b
  · exact ⟨hmode _, rfl⟩
  · exact hp.openField b
  · exact hp.separate b
  · split
    · exact ⟨hmode _, rfl⟩
    · exact ⟨hp.push b _, rfl⟩
  · split
    · exact ⟨hp.push b _, rfl⟩
    · exact hp.separate b

end Alike

@[simp] theorem rows_nil (s : Scanner) :
    s.rows [] = if s.mode = .between then [] else [(s.field.reverse :: s.fields).reverse] := by
  simp only [rows, scan, finish]
  split <;> rfl

theorem rows_cons (s : Scanner) (b : UInt8) (bs : List UInt8) :
    s.rows (b :: bs) = ((s.step b).2.map Record.fields).toList ++ (s.step b).1.rows bs := by
  rw [rows, scan]
  split
  · rename_i after hstep
    simp [hstep, rows]
  · rename_i after r hstep
    simp [hstep, rows]

theorem Alike.rows {s t : Scanner} (h : Alike s t) (bs : List UInt8) : s.rows bs = t.rows bs := by
  induction bs generalizing s t with
  | nil => simp [h.mode, h.field, h.fields]
  | cons b bs ih =>
      obtain ⟨hscanner, hrecord⟩ := h.step b
      rw [rows_cons, rows_cons, hrecord, ih hscanner]

/-- The fields of the records that a scanner has before it, from its mode and, in reverse, the
bytes of the present field and the fields before it. -/
def rowsFrom (mode : Mode) (field : List UInt8) (fields : List (List UInt8)) (bs : List UInt8) :
    List (List (List UInt8)) :=
  rows { mode, field, fields } bs

theorem rows_eq_rowsFrom (s : Scanner) (bs : List UInt8) :
    s.rows bs = rowsFrom s.mode s.field s.fields bs := by
  have h : Alike s { mode := s.mode, field := s.field, fields := s.fields } := ⟨rfl, rfl, rfl⟩
  exact h.rows bs

/-- What holds of a scanner holds without places. -/
theorem rowsFrom_of_scan_eq {s : Scanner} {bs' : List UInt8}
    (h : scan { mode, field := f, fields := fs } bs = s.scan bs') :
    rowsFrom mode f fs bs = rowsFrom s.mode s.field s.fields bs' := by
  rw [← rows_eq_rowsFrom, rowsFrom, rows, h, rows]

theorem rowsFrom_between_nil : rowsFrom .between f fs [] = [] := rfl

theorem rowsFrom_between_end (hb : endsRecord b = true) :
    rowsFrom .between f fs (b :: bs) = rowsFrom .between f fs bs :=
  rowsFrom_of_scan_eq (scan_between_end hb)

theorem rowsFrom_between_hash :
    rowsFrom .between f fs (hash :: bs) = rowsFrom .comment f fs bs :=
  rowsFrom_of_scan_eq scan_between_hash

theorem rowsFrom_comment_lineFeed :
    rowsFrom .comment f fs (lineFeed :: bs) = rowsFrom .between f fs bs :=
  rowsFrom_of_scan_eq scan_comment_lineFeed

theorem rowsFrom_comment (hb : b ≠ lineFeed) :
    rowsFrom .comment f fs (b :: bs) = rowsFrom .comment f fs bs :=
  rowsFrom_of_scan_eq (scan_comment hb)

theorem rowsFrom_comment_append {s : List UInt8} (hs : lineFeed ∉ s) :
    rowsFrom .comment f fs (s ++ bs) = rowsFrom .comment f fs bs :=
  rowsFrom_of_scan_eq (scan_comment_append hs)

theorem rowsFrom_between (hb : endsRecord b = false) (hh : b ≠ hash) :
    rowsFrom .between f fs (b :: bs) = rowsFrom .opening f fs (b :: bs) :=
  rowsFrom_of_scan_eq (scan_between hb hh)

theorem rowsFrom_bare_comma :
    rowsFrom .bare f fs (comma :: bs) = rowsFrom .opening [] (f.reverse :: fs) bs :=
  rowsFrom_of_scan_eq scan_bare_comma

theorem rowsFrom_bare_end (hb : endsRecord b = true) :
    rowsFrom .bare f fs (b :: bs) =
      (f.reverse :: fs).reverse :: rowsFrom .between [] [] bs := by
  rw [rowsFrom, rows, scan_bare_end hb, List.map_cons, ← rows, rows_eq_rowsFrom]

theorem rowsFrom_nil (hmode : mode ≠ .between) :
    rowsFrom mode f fs [] = [(f.reverse :: fs).reverse] := by
  rw [rowsFrom, rows, scan_nil hmode, List.map_singleton]

theorem rowsFrom_opening_bare {s : List UInt8}
    (hs : ∀ b ∈ s, b ≠ comma ∧ b ≠ quote ∧ endsRecord b = false) (hbs : bs.head? ≠ some quote) :
    rowsFrom .opening [] fs (s ++ bs) = rowsFrom .bare s.reverse fs bs := by
  have hhead : (s ++ bs).head? ≠ some quote := by
    cases s with
    | nil => exact hbs
    | cons c s => simpa using (hs c (List.mem_cons_self ..)).2.1
  exact rowsFrom_of_scan_eq (scan_opening_bare (fun c hc ↦ ⟨(hs c hc).1, (hs c hc).2.2⟩) hhead)

theorem rowsFrom_opening_quoted (s : List UInt8) (hbs : bs.head? ≠ some quote) :
    rowsFrom .opening [] fs (quote :: (doubled s ++ quote :: bs)) =
      rowsFrom .bare s.reverse fs bs :=
  rowsFrom_of_scan_eq (scan_opening_quoted s hbs)

end Scanner

end LinkMonitor.Table
