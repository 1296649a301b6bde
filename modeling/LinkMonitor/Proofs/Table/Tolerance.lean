import LinkMonitor.Proofs.Stream.HexInput
import LinkMonitor.Proofs.Table.Reading
import LinkMonitor.Proofs.Table.Rows
import Mathlib.Data.List.Forall2
import Mathlib.Data.List.TakeWhile

/-!
# Catalogs that others have written

A catalog is read as what was meant, in whatever way it is written.  Rows may be written in any of
the ways of `SpellsRows`.  The columns of numbers may be padded, and headers may be given in decimal
or hexadecimal (`SpellsId`); names and specs are taken as they stand.  The spec may be missing, and
there may be a heading above the rows (`IsTable`).

What has to be shown is that none of these freedoms gets in the way of another: no row is taken for
a comment, for an empty line or for a heading.  This is decided by the first character that is not a
blank, which is a digit in a row of a format and a letter in a heading.
-/

namespace LinkMonitor.Table

open LinkMonitor.Text

/-! ## Numbers in columns -/

/-- `IsHexNumeral cs n`: the text `cs` is one or more hexadecimal digits in either case, and `n` is
their value.  There may be zeros in front. -/
def IsHexNumeral (cs : List Char) (n : Nat) : Prop :=
  ∃ ds, ds ≠ [] ∧ List.Forall₂ HexInput.IsDigit cs ds ∧ ds.foldl (fun n d ↦ 16 * n + d) 0 = n

/-- `IsByteNumeral cs b`: the text `cs` is a byte in decimal, or in hexadecimal behind `0x`. -/
inductive IsByteNumeral : List Char → UInt8 → Prop
  | decimal {cs : List Char} {b : UInt8} : IsNumeral cs b.toNat → IsByteNumeral cs b
  | hexadecimal {x : Char} {cs : List Char} {b : UInt8} : x = 'x' ∨ x = 'X' →
      IsHexNumeral cs b.toNat → IsByteNumeral ('0' :: x :: cs) b

/-- `Pads w cs`: the text `cs` is `w` with any spaces and tabs around it. -/
def Pads (w cs : List Char) : Prop :=
  ∃ before after : List Char, cs = before ++ w ++ after ∧
    ∀ c ∈ before ++ after, c = ' ' ∨ c = '\t'

/-- `SpellsId b cs`: the column `cs` holds the byte `b` of a header. -/
def SpellsId (b : UInt8) (cs : List Char) : Prop := ∃ w, IsByteNumeral w b ∧ Pads w cs

/-- `SpellsLength n cs`: the column `cs` holds the length `n` in decimal. -/
def SpellsLength (n : UInt64) (cs : List Char) : Prop := ∃ w, IsNumeral w n.toNat ∧ Pads w cs

theorem extend?_of_forall₂_isDigit {cs : List Char} {ds : List Nat}
    (h : List.Forall₂ HexInput.IsDigit cs ds) (m : Nat) :
    extend? 16 m cs = some (ds.foldl (fun n d ↦ 16 * n + d) m) := by
  induction h generalizing m with
  | nil => rfl
  | cons hd _ ih => rw [extend?, HexInput.digit?_of_isDigit hd, Option.bind_some, ih]; rfl

theorem IsHexNumeral.natural?_eq {cs : List Char} {n : Nat} (h : IsHexNumeral cs n) :
    natural? 16 cs = some n := by
  obtain ⟨ds, hne, hds, rfl⟩ := h
  cases hds with
  | nil => contradiction
  | cons hd hds => exact extend?_of_forall₂_isDigit (.cons hd hds) 0

namespace IsByteNumeral

variable {w : List Char} {b : UInt8}

theorem byte?_eq (h : IsByteNumeral w b) : byte? w = some b := by
  cases h with
  | decimal h =>
      have hread : bounded? 10 256 w = some b.toNat :=
        bounded?_eq_natural? (natural?_ten_eq_some_iff.mpr h) b.toNat_lt
      have hletter : ∀ x, x.isDigit = false → x ∉ w := by
        intro x hx hmem
        rw [h.isDigit hmem] at hx
        cases hx
      unfold byte?
      split
      · exact absurd (by simp) (hletter 'x' rfl)
      · exact absurd (by simp) (hletter 'X' rfl)
      · simp [hread]
  | @hexadecimal x cs b hx h =>
      have hread : bounded? 16 256 cs = some b.toNat :=
        bounded?_eq_natural? h.natural?_eq b.toNat_lt
      rcases hx with rfl | rfl <;> simp [byte?, hread]

theorem isWord (h : IsByteNumeral w b) : IsWord isBlank w := by
  cases h with
  | decimal h => exact HexInput.isWord_of_natural?_eq_some (natural?_ten_eq_some_iff.mpr h)
  | hexadecimal hx h =>
      have hcs := HexInput.isWord_of_natural?_eq_some h.natural?_eq
      rcases hx with rfl | rfl
      · exact (hcs.cons rfl).cons rfl
      · exact (hcs.cons rfl).cons rfl

/-- A byte begins with a decimal digit in either base. -/
theorem exists_eq_cons (h : IsByteNumeral w b) : ∃ c cs, w = c :: cs ∧ c.isDigit = true := by
  cases h with
  | decimal h =>
      obtain ⟨c, cs, rfl⟩ := List.exists_cons_of_ne_nil h.ne_nil
      exact ⟨c, cs, rfl, h.isDigit (List.mem_cons_self ..)⟩
  | hexadecimal => exact ⟨'0', _, rfl, rfl⟩

end IsByteNumeral

/-! ## Padding -/

theorem trim_append {blank : Char → Bool} {before w after : List Char} (hw : IsWord blank w)
    (hbefore : ∀ c ∈ before, blank c = true) (hafter : ∀ c ∈ after, blank c = true) :
    trim blank (before ++ w ++ after) = w := by
  have hself {v : List Char} (hne : v ≠ []) (hv : ∀ c ∈ v, blank c = false) (rest : List Char) :
      (v ++ rest).dropWhile blank = v ++ rest := by
    obtain ⟨c, cs, rfl⟩ := List.exists_cons_of_ne_nil hne
    simp [hv c (List.mem_cons_self ..)]
  have hreverse : w.reverse ≠ [] := by simpa using hw.ne_nil
  rw [trim, List.append_assoc, List.dropWhile_append_of_pos hbefore,
    hself hw.ne_nil (fun _ ↦ hw.isBlank_eq_false), List.reverse_append,
    List.dropWhile_append_of_pos fun c hc ↦ hafter c (List.mem_reverse.mp hc),
    ← List.append_nil w.reverse,
    hself hreverse (fun _ hc ↦ hw.isBlank_eq_false (List.mem_reverse.mp hc)), List.append_nil,
    List.reverse_reverse]

/-- A column need not be padded. -/
theorem pads_self (w : List Char) : Pads w w := ⟨[], [], by simp, by simp⟩

theorem Pads.trim_eq {w cs : List Char} (h : Pads w cs) (hw : IsWord isBlank w) :
    trim isBlank cs = w := by
  obtain ⟨before, after, rfl, hpad⟩ := h
  have hblank : ∀ c ∈ before ++ after, isBlank c = true := by
    intro c hc
    rcases hpad c hc with rfl | rfl <;> rfl
  exact trim_append hw (fun c hc ↦ hblank c (List.mem_append_left _ hc))
    fun c hc ↦ hblank c (List.mem_append_right _ hc)

/-- A padded column is read as what stands between the padding. -/
theorem Pads.column_eq {α : Type} {read? : List Char → Option α} {w cs : List Char} {a : α}
    (h : Pads w cs) (hw : IsWord isBlank w) (ha : read? w = some a) (name : String) :
    column name read? (.ofList cs) = .ok a := by
  simp [column, h.trim_eq hw, ha]

theorem SpellsId.column_eq {b : UInt8} {cs : List Char} (h : SpellsId b cs) (name : String) :
    column name byte? (.ofList cs) = .ok b := by
  obtain ⟨w, hw, hcs⟩ := h
  exact hcs.column_eq hw.isWord hw.byte?_eq name

theorem SpellsLength.column_eq {n : UInt64} {cs : List Char} (h : SpellsLength n cs) :
    column "length" length? (.ofList cs) = .ok n := by
  obtain ⟨w, hw, hcs⟩ := h
  have hvalue : natural? 10 w = some n.toNat := natural?_ten_eq_some_iff.mpr hw
  refine hcs.column_eq (HexInput.isWord_of_natural?_eq_some hvalue) ?_ "length"
  rw [length?, bounded?_eq_natural? hvalue n.toNat_lt]
  simp

/-- A padded column begins with a blank, or as the word in it does. -/
theorem Pads.exists_eq_cons {c : Char} {w cs : List Char} (h : Pads (c :: w) cs) :
    ∃ d rest, cs = d :: rest ∧ (isBlank d = true ∨ d = c) := by
  obtain ⟨before, after, rfl, hpad⟩ := h
  cases before with
  | nil => exact ⟨c, w ++ after, rfl, .inr rfl⟩
  | cons d before =>
      refine ⟨d, _, rfl, .inl ?_⟩
      rcases hpad d (by simp) with rfl | rfl <;> rfl

/-! ## Rows of formats -/

/-- `Describes f row`: the columns of a row say what the format `f` is. -/
inductive Describes (f : MessageFormat) : List (List Char) → Prop
  | full {high low length : List Char} : SpellsId f.header.high high → SpellsId f.header.low low →
      SpellsLength f.length length → Describes f [high, low, f.name.toList, length, f.spec.toList]
  | /-- A spec that is empty may be left out. -/
    short {high low length : List Char} : SpellsId f.header.high high → SpellsId f.header.low low →
      SpellsLength f.length length → f.spec = "" → Describes f [high, low, f.name.toList, length]

/-- A row of column names begins with the name of the first column, in upper or lower case and with
blanks around it. -/
def IsHeading (row : List (List Char)) : Prop :=
  ∃ first rest, row = first :: rest ∧ (trim isBlank first).map Char.toLower = "id_high".toList

variable {f : MessageFormat} {row : List (List Char)}

theorem Describes.ofRow_eq (h : Describes f row) : ofRow (row.map String.ofList) = .ok f := by
  cases h with
  | full hhigh hlow hlength =>
      simp only [List.map_cons, List.map_nil, ofRow, formatOf, hhigh.column_eq, hlow.column_eq,
        hlength.column_eq, String.ofList_toList, bind, Except.bind, pure, Except.pure]
  | short hhigh hlow hlength hspec =>
      simp only [List.map_cons, List.map_nil, ofRow, formatOf, hhigh.column_eq, hlow.column_eq,
        hlength.column_eq, String.ofList_toList, bind, Except.bind, pure, Except.pure, ← hspec]

theorem Describes.exists_eq_cons (h : Describes f row) :
    ∃ first rest, row = first :: rest ∧ SpellsId f.header.high first := by
  cases h with
  | full hhigh => exact ⟨_, _, rfl, hhigh⟩
  | short hhigh => exact ⟨_, _, rfl, hhigh⟩

theorem isHeading_iff : isHeading (row.map String.ofList) = true ↔ IsHeading row := by
  cases row with
  | nil => simp [isHeading, IsHeading]
  | cons first rest => simp [isHeading, IsHeading]

theorem range_of_toLower_eq {c : Char} (h : c.toLower = 'i') : 'A' ≤ c ∧ c ≤ 'z' := by
  unfold Char.toLower at h
  split at h
  · rename_i hupper
    exact ⟨hupper.1, Char.le_trans hupper.2 (by decide)⟩
  · subst h
    decide

/-- What is left of a text that does not begin with a blank begins as the text does. -/
theorem trim_cons_eq {blank : Char → Bool} {c : Char} (hc : blank c = false) (s : List Char) :
    ∃ rest, trim blank (c :: s) = c :: rest := by
  have hdrop : (c :: s).dropWhile blank = c :: s := by simp [hc]
  have hsuffix : (s.reverse ++ [c]).dropWhile blank <:+ s.reverse ++ [c] :=
    List.dropWhile_suffix blank
  rw [trim, hdrop, List.reverse_cons]
  rcases List.suffix_concat_iff.mp hsuffix with hnil | ⟨rest, hrest, -⟩
  · have hmem := List.dropWhile_eq_nil_iff.mp hnil c (by simp)
    simp [hc] at hmem
  · rw [hrest, List.reverse_append]
    exact ⟨rest.reverse, rfl⟩

theorem IsHeading.beginsVisibly (h : IsHeading row) : BeginsVisibly row := by
  obtain ⟨first, rest, rfl, hfirst⟩ := h
  cases first with
  | nil => simp [trim] at hfirst
  | cons c s =>
      refine ⟨c, s, rest, rfl, ?_⟩
      cases hc : isBlank c with
      | true => exact .inl rfl
      | false =>
          obtain ⟨s', hs'⟩ := trim_cons_eq hc s
          rw [hs', List.map_cons] at hfirst
          obtain ⟨hle, hle'⟩ := range_of_toLower_eq (List.cons.inj hfirst).1
          exact .inr ⟨Char.le_trans (by decide) hle, hle'⟩

theorem Describes.beginsVisibly (h : Describes f row) : BeginsVisibly row := by
  obtain ⟨first, rest, rfl, w, hw, hpad⟩ := h.exists_eq_cons
  obtain ⟨c, cs, rfl, hc⟩ := hw.exists_eq_cons
  obtain ⟨d, s, rfl, hd⟩ := hpad.exists_eq_cons
  refine ⟨d, s, rest, rfl, hd.imp_right ?_⟩
  rintro rfl
  have hrange := Char.isDigit_iff_toNat.mp hc
  exact ⟨hrange.1, Nat.le_trans hrange.2 (by decide)⟩

/-- The row of a format is not taken for a heading. -/
theorem Describes.not_isHeading (h : Describes f row) : ¬ IsHeading row := by
  obtain ⟨first, rest, rfl, w, hw, hpad⟩ := h.exists_eq_cons
  obtain ⟨c, cs, rfl, hc⟩ := hw.exists_eq_cons
  rintro ⟨first', rest', hrow, hfirst⟩
  obtain ⟨rfl, -⟩ := List.cons.inj hrow
  rw [hpad.trim_eq hw.isWord, List.map_cons] at hfirst
  have hle := (range_of_toLower_eq (List.cons.inj hfirst).1).1
  have hrange := Char.isDigit_iff_toNat.mp hc
  exact absurd (Nat.le_trans hle hrange.2) (by decide)

/-! ## Records -/

theorem texts_of_fields {r : Record} {row : List (List Char)} (h : r.fields = row.map encode) :
    r.texts = .ok (row.map String.ofList) := by
  rw [texts_eq_ok_iff, h, List.map_map]
  exact List.map_congr_left fun cs _ ↦ (utf8_ofList cs).symm

/-! ## Tables -/

/-- `IsTable fs rows`: the rows describe the formats one by one, below a heading if there is one. -/
inductive IsTable (fs : List MessageFormat) : List (List (List Char)) → Prop
  | plain {rows : List (List (List Char))} : List.Forall₂ Describes fs rows → IsTable fs rows
  | headed {heading : List (List Char)} {rows : List (List (List Char))} : IsHeading heading →
      List.Forall₂ Describes fs rows → IsTable fs (heading :: rows)

variable {fs : List MessageFormat} {rows : List (List (List Char))} {r : Record}
  {rs rs' : List Record}

theorem beginsVisibly_of_forall₂ (h : List.Forall₂ Describes fs rows) :
    ∀ row ∈ rows, BeginsVisibly row := by
  induction h with
  | nil => simp
  | cons hrow _ ih => exact List.forall_mem_cons.mpr ⟨hrow.beginsVisibly, ih⟩

theorem IsTable.beginsVisibly (h : IsTable fs rows) : ∀ row ∈ rows, BeginsVisibly row := by
  cases h with
  | plain h => exact beginsVisibly_of_forall₂ h
  | headed hheading h =>
      exact List.forall_mem_cons.mpr ⟨hheading.beginsVisibly, beginsVisibly_of_forall₂ h⟩

theorem Describes.ofTexts_eq (h : Describes f row) (r : Record) :
    ofTexts r (row.map String.ofList) = .ok f := by
  rw [ofTexts, h.ofRow_eq]
  rfl

/-- Records of formats, and what is read of the records behind them. -/
theorem mapM_ofRecord_append (h : List.Forall₂ Describes fs rows)
    (hrs : rs.map Record.fields = rows.map (·.map encode)) :
    (rs ++ rs').mapM ofRecord = (rs'.mapM ofRecord).map (fs ++ ·) := by
  induction h generalizing rs with
  | nil =>
      obtain rfl : rs = [] := by simpa using hrs
      cases hrs' : rs'.mapM ofRecord <;> simp [hrs', Except.map]
  | @cons f row fs rows hrow _ ih =>
      cases rs with
      | nil => simp at hrs
      | cons r rs =>
          obtain ⟨hr, hrs⟩ := List.cons.inj hrs
          have hf : ofRecord r = .ok f := by
            rw [ofRecord, texts_of_fields hr]
            exact hrow.ofTexts_eq r
          rw [List.cons_append, List.mapM_cons, hf, ih hrs]
          cases rs'.mapM ofRecord <;> rfl

/-- The first record, if there is one, is no heading. -/
def BeginsBelowHeading (rs : List Record) : Prop :=
  ∀ r ∈ rs.head?, ∃ row : List (List Char), r.fields = row.map encode ∧ ¬ IsHeading row

theorem BeginsBelowHeading.ofRecords_eq (h : BeginsBelowHeading rs) :
    ofRecords rs = rs.mapM ofRecord := by
  apply ofRecords_eq_mapM
  intro r hr row' hrow'
  obtain ⟨row, hfields, hnone⟩ := h r hr
  rw [texts_of_fields hfields] at hrow'
  obtain rfl := Except.ok.inj hrow'
  exact Bool.eq_false_iff.mpr (mt isHeading_iff.mp hnone)

theorem BeginsBelowHeading.append (h : List.Forall₂ Describes fs rows)
    (hrs : rs.map Record.fields = rows.map (·.map encode)) (hrs' : BeginsBelowHeading rs') :
    BeginsBelowHeading (rs ++ rs') := by
  cases h with
  | nil =>
      obtain rfl : rs = [] := by simpa using hrs
      exact hrs'
  | @cons f row fs rows hrow _ =>
      cases rs with
      | nil => simp at hrs
      | cons r rs =>
          intro r' hr'
          obtain rfl := Option.some.inj hr'
          exact ⟨row, (List.cons.inj hrs).1, hrow.not_isHeading⟩

/-- The records of a table are read as its formats, and those behind them as what they are. -/
theorem IsTable.ofRecords_append (h : IsTable fs rows)
    (hrs : rs.map Record.fields = rows.map (·.map encode)) (hrs' : BeginsBelowHeading rs') :
    ofRecords (rs ++ rs') = (rs'.mapM ofRecord).map (fs ++ ·) := by
  -- Without a heading, that none is found has to be said of the first record, whichever it is.
  cases h with
  | plain h =>
      rw [(BeginsBelowHeading.append h hrs hrs').ofRecords_eq, mapM_ofRecord_append h hrs]
  | @headed heading rows hheading h =>
      cases rs with
      | nil => simp at hrs
      | cons r rs =>
          obtain ⟨hr, hrs⟩ := List.cons.inj hrs
          rw [List.cons_append,
            ofRecords_of_isHeading (texts_of_fields hr) (isHeading_iff.mpr hheading),
            mapM_ofRecord_append h hrs]

theorem IsTable.ofRecords_eq (h : IsTable fs rows)
    (hrs : rs.map Record.fields = rows.map (·.map encode)) : ofRecords rs = .ok fs := by
  have hnone : BeginsBelowHeading [] := by simp [BeginsBelowHeading]
  have happend : ofRecords (rs ++ []) = .ok (fs ++ []) := h.ofRecords_append hrs hnone
  rwa [List.append_nil, List.append_nil] at happend

/-- A last record with one empty field is no format. -/
theorem IsTable.exists_ofRecords_eq_error (h : IsTable fs rows)
    (hrs : rs.map Record.fields = rows.map (·.map encode) ++ [[[]]]) :
    ∃ line, ofRecords rs = .error (.invalidRow line (.fieldCount 1)) := by
  obtain ⟨rs, last, rfl, hbefore, hlast⟩ := List.map_eq_append_iff.mp hrs
  obtain ⟨r, rfl, hr⟩ := List.map_eq_singleton_iff.mp hlast
  have hfields : r.fields = [[]].map encode := hr
  have hbelow : BeginsBelowHeading [r] := by
    intro r' hr'
    obtain rfl := Option.some.inj hr'
    exact ⟨[[]], hfields, by simp [IsHeading, trim]⟩
  have hrecord : ofRecord r = .error (.invalidRow r.position.line (.fieldCount 1)) := by
    rw [ofRecord, texts_of_fields hfields]
    rfl
  refine ⟨r.position.line, ?_⟩
  rw [h.ofRecords_append hbefore hbelow, List.mapM_cons, hrecord]
  rfl

/-- **Catalogs are read as what was meant.**  Take rows that describe formats one by one, below a
heading or not.  In whatever way they are written, with whichever line ends, quotes, empty lines and
comments, the file is read as these formats in order.  The last line may lack its line end if it is
a row; if it is a comment, the file is refused, for a row with one column. -/
theorem read_of_isTable (h : IsTable fs rows) :
    (∀ text : String, SpellsRows rows text.toList → read (utf8 text) = .ok fs) ∧
      ∀ (text : String) (note : List Char), SpellsLines rows text.toList → '\n' ∉ note →
        ∃ line, read (utf8 (text ++ .ofList ('#' :: note))) =
          .error (.invalidRow line (.fieldCount 1)) := by
  constructor
  · intro text htext
    rw [utf8_eq_encode]
    exact h.ofRecords_eq (htext.map_fields_records h.beginsVisibly)
  · intro text note htext hnote
    rw [utf8_eq_encode, String.toList_append, String.toList_ofList]
    exact h.exists_ofRecords_eq_error (htext.map_fields_records_comment h.beginsVisibly hnote)

/-- A comment with a carriage return in front, an empty line, a heading in upper and lower case,
both kinds of numerals with zeros in front, tabs and spaces, quotes, both line ends, a comment
between two rows, a row without a spec, and no line end behind it. -/
theorem read_of_isTable_in_many_ways :
    let text := "# formats\r\n\n ID_High ,\"\"\n0x0a,\t007 ,\"left, \"\"up\"\"\",2\t,g\r\n#\n" ++
      "255,0XfF, Ping ,0"
    let fs : List MessageFormat :=
      [⟨⟨10, 7⟩, "left, \"up\"", 2, "g"⟩, ⟨⟨255, 255⟩, " Ping ", 0, ""⟩]
    let rows := [[" ID_High ", ""], ["0x0a", "\t007 ", "left, \"up\"", "2\t", "g"],
      ["255", "0XfF", " Ping ", "0"]].map (·.map String.toList)
    (IsTable fs rows ∧ SpellsRows rows text.toList) ∧ read (utf8 text) = .ok fs := by
  intro text fs rows
  have hhex (cs : List Char) (x y : Nat) (h : List.Forall₂ HexInput.IsDigit cs [x, y]) :
      IsHexNumeral cs (16 * x + y) := ⟨[x, y], by simp, h, by simp⟩
  have hten : SpellsId 10 "0x0a".toList :=
    ⟨_, .hexadecimal (.inl rfl) (hhex ['0', 'a'] 0 10 (by simp; decide)), pads_self _⟩
  have hseven : SpellsId 7 "\t007 ".toList :=
    ⟨"007".toList, .decimal (natural?_ten_eq_some_iff.mp rfl), ['\t'], [' '], by decide, by simp⟩
  have htwo : SpellsLength 2 "2\t".toList :=
    ⟨"2".toList, natural?_ten_eq_some_iff.mp rfl, [], ['\t'], by decide, by simp⟩
  have hdecimal : SpellsId 255 "255".toList :=
    ⟨_, .decimal (natural?_ten_eq_some_iff.mp rfl), pads_self _⟩
  have hhexadecimal : SpellsId 255 "0XfF".toList :=
    ⟨_, .hexadecimal (.inr rfl) (hhex ['f', 'F'] 15 15 (by simp; decide)), pads_self _⟩
  have hzero : SpellsLength 0 "0".toList := ⟨_, natural?_ten_eq_some_iff.mp rfl, pads_self _⟩
  have htable : IsTable fs rows :=
    .headed ⟨_, _, rfl, by decide⟩ (.cons (.full hten hseven htwo)
      (.cons (.short hdecimal hhexadecimal hzero rfl) .nil))
  have hheading := SpellsRow.cons (.bare (s := " ID_High ".toList) rfl) (.last (.quoted (s := [])))
  have hfirst := SpellsRow.cons (.bare (s := "0x0a".toList) rfl)
    (.cons (.bare (s := "\t007 ".toList) rfl) (.cons (.quoted (s := "left, \"up\"".toList))
      (.cons (.bare (s := "2\t".toList) rfl) (.last (.bare (s := "g".toList) rfl)))))
  have hlast := SpellsRow.cons (.bare (s := "255".toList) rfl)
    (.cons (.bare (s := "0XfF".toList) rfl) (.cons (.bare (s := " Ping ".toList) rfl)
      (.last (.bare (s := "0".toList) rfl))))
  have hformats : '\n' ∉ " formats".toList := by decide
  have hlines := SpellsLines.comment hformats .crlf (.empty .lf (.row hheading .lf
    (.row hfirst .crlf (.comment (List.not_mem_nil) .lf .nil))))
  have hspelled := SpellsRows.unended hlines hlast
  have htext : SpellsRows rows text.toList :=
    Eq.mp (congr (congrArg SpellsRows (by decide +kernel)) (by decide +kernel)) hspelled
  exact ⟨⟨htable, htext⟩, (read_of_isTable htable).1 text htext⟩

/-- A last line that is a comment without a line end is read as a row with one column. -/
theorem read_of_comment_without_line_end :
    let text := "1,2,Speed,1,c\n"
    let fs : List MessageFormat := [⟨⟨1, 2⟩, "Speed", 1, "c"⟩]
    let rows := [["1", "2", "Speed", "1", "c"].map String.toList]
    (IsTable fs rows ∧ SpellsLines rows text.toList) ∧
      read (utf8 (text ++ "# end")) = .error (.invalidRow 2 (.fieldCount 1)) ∧
      read (utf8 (text ++ "# end\n")) = .ok fs := by
  intro text fs rows
  have hid (b : UInt8) (c : Char) (h : natural? 10 [c] = some b.toNat) : SpellsId b [c] :=
    ⟨_, .decimal (natural?_ten_eq_some_iff.mp h), pads_self _⟩
  have hlength : SpellsLength 1 ['1'] := ⟨_, natural?_ten_eq_some_iff.mp rfl, pads_self _⟩
  have htable : IsTable fs rows :=
    .plain (.cons (.full (hid 1 '1' rfl) (hid 2 '2' rfl) hlength) .nil)
  have hrow := SpellsRow.cons (.bare (s := "1".toList) rfl) (.cons (.bare (s := "2".toList) rfl)
    (.cons (.bare (s := "Speed".toList) rfl) (.cons (.bare (s := "1".toList) rfl)
      (.last (.bare (s := "c".toList) rfl)))))
  have htext : SpellsLines rows text.toList :=
    Eq.mp (congrArg (SpellsLines rows) (by decide +kernel)) (.row hrow .lf .nil)
  exact ⟨⟨htable, htext⟩, by decide +kernel, by decide +kernel⟩

end LinkMonitor.Table
