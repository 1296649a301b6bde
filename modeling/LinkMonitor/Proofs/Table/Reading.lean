import LinkMonitor.Proofs.Text.Encoding
import LinkMonitor.Table.Reading

/-!
# What is read of records

Records are read one by one, except that a heading is left out (`ofRecords_of_isHeading`,
`ofRecords_eq_mapM`).  The first record that cannot be read is the reason for which a file is
refused (`exists_of_ofRecords_eq_error`).
-/

namespace LinkMonitor.Table

open LinkMonitor.Text

/-! ## Texts -/

theorem textsFrom_eq_ok_iff {p : Position} {i : Nat} {fields : List (List UInt8)}
    {row : List String} : textsFrom p i fields = .ok row ↔ fields = row.map utf8 := by
  induction fields generalizing i row with
  | nil => cases row <;> simp [textsFrom]
  | cons f fields ih =>
      rw [textsFrom]
      cases row with
      | nil =>
          cases ofUtf8 f with
          | ok s => cases textsFrom p (i + 1) fields <;> simp [Except.map]
          | error byte => simp
      | cons s row =>
          rw [List.map_cons, List.cons_eq_cons, ← ofUtf8_eq_ok_iff, ← ih (i := i + 1)]
          cases ofUtf8 f with
          | ok s => cases textsFrom p (i + 1) fields <;> simp [Except.map]
          | error byte => simp

theorem texts_eq_ok_iff {r : Record} {row : List String} :
    r.texts = .ok row ↔ r.fields = row.map utf8 :=
  textsFrom_eq_ok_iff

/-- A field that is no text is not the fault of a row. -/
theorem textsFrom_ne_invalidRow {p : Position} {i : Nat} {fields : List (List UInt8)} {line : Nat}
    {fault : RowFault} : textsFrom p i fields ≠ .error (.invalidRow line fault) := by
  induction fields generalizing i with
  | nil => simp [textsFrom]
  | cons f fields ih =>
      rw [textsFrom]
      cases ofUtf8 f with
      | ok s =>
          have hrest := ih (i := i + 1)
          cases hfields : textsFrom p (i + 1) fields with
          | ok row => simp [Except.map]
          | error e => simpa [hfields, Except.map] using hrest
      | error byte => simp

theorem ofTexts_eq_invalidRow_iff {r : Record} {row : List String} {line : Nat} {fault : RowFault} :
    ofTexts r row = .error (.invalidRow line fault) ↔
      line = r.position.line ∧ ofRow row = .error fault := by
  rw [ofTexts]
  cases ofRow row with
  | ok f =>
      refine iff_of_false ?_ ?_
      · intro h
        cases h
      · rintro ⟨-, h⟩
        cases h
  | error fault' =>
      constructor
      · intro h
        obtain ⟨rfl, rfl⟩ := TableError.invalidRow.inj (Except.error.inj h)
        exact ⟨rfl, rfl⟩
      · rintro ⟨rfl, h⟩
        rw [h]
        rfl

/-- A record is refused for the fault of its row, on the line that is its place. -/
theorem ofRecord_eq_invalidRow_iff {r : Record} {line : Nat} {fault : RowFault} :
    ofRecord r = .error (.invalidRow line fault) ↔
      line = r.position.line ∧ ∃ row, r.fields = row.map utf8 ∧ ofRow row = .error fault := by
  simp only [← texts_eq_ok_iff]
  rw [ofRecord]
  cases hrow : r.texts with
  | error e =>
      have hne : e ≠ .invalidRow line fault := by
        rintro rfl
        exact textsFrom_ne_invalidRow hrow
      simpa [Except.bind] using hne
  | ok row =>
      rw [Except.bind, ofTexts_eq_invalidRow_iff]
      simp

/-! ## Headings -/

variable {r : Record} {rs : List Record}

theorem ofRecords_of_isHeading {row : List String} (hr : r.texts = .ok row)
    (h : isHeading row = true) : ofRecords (r :: rs) = rs.mapM ofRecord := by
  simp only [ofRecords, hr, bind, Except.bind, if_pos h]

/-- Without a heading, all records are read in the same way. -/
theorem ofRecords_eq_mapM
    (h : ∀ r ∈ rs.head?, ∀ row, r.texts = .ok row → isHeading row = false) :
    ofRecords rs = rs.mapM ofRecord := by
  cases rs with
  | nil => rfl
  | cons r rs =>
      rw [List.mapM_cons, ofRecord, ofRecords]
      cases hr : r.texts with
      | error e => rfl
      | ok row => simp [h r rfl row hr, bind, Except.bind]

/-! ## The first fault -/

theorem exists_of_mapM_eq_error {α β ε : Type} {f : α → Except ε β} {xs : List α} {e : ε}
    (h : xs.mapM f = .error e) :
    ∃ before x after ys, xs = before ++ x :: after ∧ before.mapM f = .ok ys ∧ f x = .error e := by
  induction xs with
  | nil => cases h
  | cons x xs ih =>
      rw [List.mapM_cons] at h
      cases hx : f x with
      | error e' =>
          rw [hx] at h
          obtain rfl := Except.error.inj h
          exact ⟨[], x, xs, [], rfl, rfl, hx⟩
      | ok y =>
          rw [hx] at h
          cases hxs : xs.mapM f with
          | ok ys =>
              rw [hxs] at h
              cases h
          | error e' =>
              rw [hxs] at h
              obtain rfl := Except.error.inj h
              obtain ⟨before, x', after, ys, rfl, hbefore, hx'⟩ := ih hxs
              refine ⟨x :: before, x', after, y :: ys, rfl, ?_, hx'⟩
              rw [List.mapM_cons, hx, hbefore]
              rfl

/-- All records before the one at fault are read. -/
theorem exists_of_ofRecords_eq_error {e : TableError} (h : ofRecords rs = .error e) :
    ∃ before r after fs,
      rs = before ++ r :: after ∧ ofRecords before = .ok fs ∧ ofRecord r = .error e := by
  by_cases hheading : ∃ r rs' row, rs = r :: rs' ∧ r.texts = .ok row ∧ isHeading row = true
  · obtain ⟨heading, rs, row, rfl, hrow, hheading⟩ := hheading
    rw [ofRecords_of_isHeading hrow hheading] at h
    obtain ⟨before, r, after, fs, rfl, hbefore, hr⟩ := exists_of_mapM_eq_error h
    refine ⟨heading :: before, r, after, fs, rfl, ?_, hr⟩
    rw [ofRecords_of_isHeading hrow hheading, hbefore]
  · have hnone : ∀ r ∈ rs.head?, ∀ row, r.texts = .ok row → isHeading row = false := by
      intro r hr row hrow
      obtain ⟨rs', rfl⟩ := List.head?_eq_some_iff.mp hr
      exact Bool.eq_false_iff.mpr fun h ↦ hheading ⟨r, rs', row, rfl, hrow, h⟩
    rw [ofRecords_eq_mapM hnone] at h
    obtain ⟨before, r, after, fs, rfl, hbefore, hr⟩ := exists_of_mapM_eq_error h
    refine ⟨before, r, after, fs, rfl, ?_, hr⟩
    rw [ofRecords_eq_mapM, hbefore]
    intro r' hr'
    exact hnone r' (by rw [List.head?_append, hr']; rfl)

end LinkMonitor.Table
