import LinkMonitor.Proofs.Table.Tolerance

/-!
# Catalogs read back

A catalog that is written and read again is the same catalog.  Names and specs may be any texts,
so the writer has to protect whatever the scanner would take for structure: it puts a field between
quotes as soon as a comma, a quote or a line end occurs in it.

This is enough, because what is written is one of the ways in which the rows may be written
(`spellsRows_write`), and the rows are those of a table (`isTable_columns`).  What remains is that
of reading such tables.
-/

namespace LinkMonitor.Table

open LinkMonitor.Text

/-! ## What is written -/

theorem spellsField_writeField (s : List Char) : SpellsField s (writeField s) := by
  cases h : needsQuotes s with
  | false =>
      rw [writeField, h, if_neg Bool.false_ne_true]
      exact .bare h
  | true =>
      rw [writeField, h, if_pos rfl]
      exact .quoted

theorem spellsRow_intercalate (x : List Char) (xs : List (List Char)) :
    SpellsRow (x :: xs) ([','].intercalate ((x :: xs).map writeField)) := by
  induction xs generalizing x with
  | nil => simpa using SpellsRow.last (spellsField_writeField x)
  | cons y xs ih =>
      simpa [List.intercalate_cons_cons] using SpellsRow.cons (spellsField_writeField x) (ih y)

/-- Rows are written one in a line. -/
theorem spellsLines_flatMap {rows : List (List (List Char))} (hne : ∀ row ∈ rows, row ≠ []) :
    SpellsLines rows (rows.flatMap writeRow) := by
  induction rows with
  | nil => exact .nil
  | cons row rows ih =>
      obtain ⟨hrow, hrows⟩ := List.forall_mem_cons.mp hne
      obtain ⟨x, xs, rfl⟩ := List.exists_cons_of_ne_nil hrow
      rw [List.flatMap_cons, writeRow, List.append_assoc]
      exact .row (spellsRow_intercalate x xs) .lf (ih hrows)

/-- A catalog is written as the names of the columns and the rows of the formats. -/
theorem spellsRows_write (fs : List MessageFormat) :
    SpellsRows (columns.map String.toList :: fs.map rowOf) (write fs).toList := by
  rw [write, String.toList_ofList, ← List.flatMap_cons]
  refine .ended (spellsLines_flatMap ?_)
  simp [columns, rowOf]

/-! ## What is read -/

theorem isHexNumeral_hexByte (b : UInt8) : IsHexNumeral (hexByte b) b.toNat := by
  have hb := b.toNat_lt
  refine ⟨[b.toNat / 16, b.toNat % 16], by simp, ?_, ?_⟩
  · exact .cons ⟨by omega, .inl rfl⟩ (.cons ⟨by omega, .inl rfl⟩ .nil)
  · simp only [List.foldl_cons, List.foldl_nil]
    omega

/-- The row of a format describes it. -/
theorem describes_rowOf (f : MessageFormat) : Describes f (rowOf f) := by
  have hid (b : UInt8) : SpellsId b (idText b) :=
    ⟨_, .hexadecimal (.inl rfl) (isHexNumeral_hexByte b), pads_self _⟩
  have hlength : SpellsLength f.length (decimal f.length.toNat) :=
    ⟨_, natural?_ten_eq_some_iff.mp (natural?_decimal _), pads_self _⟩
  exact .full (hid f.header.high) (hid f.header.low) hlength

/-- The names of the columns are a heading above the rows of the formats. -/
theorem isTable_columns (fs : List MessageFormat) :
    IsTable fs (columns.map String.toList :: fs.map rowOf) := by
  refine .headed ⟨_, _, rfl, by decide⟩ ?_
  rw [List.forall₂_map_right_iff, List.forall₂_same]
  exact fun f _ ↦ describes_rowOf f

/-- The fields of a written catalog: the names of the columns, and those of the rows. -/
theorem rows_write (fs : List MessageFormat) :
    (records (utf8 (write fs))).map Record.fields =
      (columns.map fun c ↦ encode c.toList) :: fs.map fun f ↦ (rowOf f).map encode := by
  have hvisible := (isTable_columns fs).beginsVisibly
  rw [utf8_eq_encode, (spellsRows_write fs).map_fields_records hvisible]
  simp

/-- Rows below the names of the columns are read as formats. -/
theorem ofRecords_of_rows {rs : List Record} {fs : List MessageFormat}
    (h : rs.map Record.fields =
      (columns.map fun c ↦ encode c.toList) :: fs.map fun f ↦ (rowOf f).map encode) :
    ofRecords rs = .ok fs := by
  apply (isTable_columns fs).ofRecords_eq
  rw [h]
  simp

/-- **Catalogs read back.**  A catalog that is written can be read, and gives the same formats in
the same order, whatever their names and specs are. -/
theorem read_utf8_write (fs : List MessageFormat) : read (utf8 (write fs)) = .ok fs :=
  ofRecords_of_rows (rows_write fs)

end LinkMonitor.Table
