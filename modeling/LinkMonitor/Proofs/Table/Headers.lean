import LinkMonitor.Proofs.Table.Tolerance

/-!
# The bytes of a header

Headers are given in two places, as options of a command and as columns of a catalog.  Both are read
by `byte?`, in a column after the blanks around it have been taken off (`formatOf_eq_ok_iff`,
`formatOf_eq_error_iff`).

A byte is a number in decimal, or in hexadecimal behind `0x`, which is `IsByteNumeral`.  What is
read is a little more than that: a plus sign may stand in front of the digits, even behind `0x`
(`byte?_eq_some_iff`).
-/

namespace LinkMonitor.Table

open LinkMonitor.Text

/-! ## Numerals -/

theorem exists_forall₂_isDigit_of_extend?_eq_some {m n : Nat} {cs : List Char}
    (h : extend? 16 m cs = some n) :
    ∃ ds, List.Forall₂ HexInput.IsDigit cs ds ∧ ds.foldl (fun n d ↦ 16 * n + d) m = n := by
  induction cs generalizing m with
  | nil => exact ⟨[], .nil, Option.some.inj h⟩
  | cons c cs ih =>
      obtain ⟨d, hd, h⟩ := Option.bind_eq_some_iff.mp h
      obtain ⟨ds, hds, hvalue⟩ := ih h
      exact ⟨d :: ds, .cons (HexInput.isDigit_of_digit?_eq_some hd) hds, hvalue⟩

theorem natural?_sixteen_eq_some_iff {cs : List Char} {n : Nat} :
    natural? 16 cs = some n ↔ IsHexNumeral cs n := by
  refine ⟨fun h ↦ ?_, IsHexNumeral.natural?_eq⟩
  cases cs with
  | nil => cases h
  | cons c cs =>
      obtain ⟨ds, hds, hvalue⟩ := exists_forall₂_isDigit_of_extend?_eq_some h
      refine ⟨ds, ?_, hds, hvalue⟩
      rintro rfl
      cases hds

/-- `IsPlusNumeral cs b`: the text `cs` is a byte in decimal, or in hexadecimal behind `0x`, with a
plus sign in front of the digits. -/
inductive IsPlusNumeral : List Char → UInt8 → Prop
  | decimal {cs : List Char} {b : UInt8} : IsNumeral cs b.toNat → IsPlusNumeral ('+' :: cs) b
  | hexadecimal {x : Char} {cs : List Char} {b : UInt8} : x = 'x' ∨ x = 'X' →
      IsHexNumeral cs b.toNat → IsPlusNumeral ('0' :: x :: '+' :: cs) b

variable {w : List Char} {b : UInt8}

theorem IsPlusNumeral.byte?_eq (h : IsPlusNumeral w b) : byte? w = some b := by
  have hb : b.toNat < 256 := b.toNat_lt
  cases h with
  | @decimal cs b h =>
      have hread : bounded? 10 256 ('+' :: cs) = some b.toNat :=
        bounded?_eq_some_iff.mpr ⟨hb, .inr ⟨cs, rfl, natural?_ten_eq_some_iff.mpr h⟩⟩
      simp [byte?, hread]
  | @hexadecimal x cs b hx h =>
      have hread : bounded? 16 256 ('+' :: cs) = some b.toNat :=
        bounded?_eq_some_iff.mpr ⟨hb, .inr ⟨cs, rfl, h.natural?_eq⟩⟩
      rcases hx with rfl | rfl <;> simp [byte?, hread]

theorem IsPlusNumeral.plus_mem (h : IsPlusNumeral w b) : '+' ∈ w := by
  cases h with
  | decimal => exact List.mem_cons_self ..
  | hexadecimal => simp

/-- What a byte is read of in a base is its digits, or a plus sign and its digits. -/
theorem natural?_of_bounded?_eq_some {base : Nat} {cs : List Char}
    (h : (bounded? base 256 cs).map UInt8.ofNat = some b) :
    natural? base cs = some b.toNat ∨ ∃ ds, cs = '+' :: ds ∧ natural? base ds = some b.toNat := by
  obtain ⟨n, hn, rfl⟩ := Option.map_eq_some_iff.mp h
  obtain ⟨hlt, hcs⟩ := bounded?_eq_some_iff.mp hn
  rwa [UInt8.toNat_ofNat_of_lt' hlt]

theorem byte?_eq_some_iff : byte? w = some b ↔ IsByteNumeral w b ∨ IsPlusNumeral w b := by
  constructor
  · intro h
    have hhex {x : Char} {cs : List Char} (hx : x = 'x' ∨ x = 'X')
        (h : (bounded? 16 256 cs).map UInt8.ofNat = some b) :
        IsByteNumeral ('0' :: x :: cs) b ∨ IsPlusNumeral ('0' :: x :: cs) b := by
      rcases natural?_of_bounded?_eq_some h with hcs | ⟨ds, rfl, hds⟩
      · exact .inl (.hexadecimal hx (natural?_sixteen_eq_some_iff.mp hcs))
      · exact .inr (.hexadecimal hx (natural?_sixteen_eq_some_iff.mp hds))
    unfold byte? at h
    split at h
    · exact hhex (.inl rfl) h
    · exact hhex (.inr rfl) h
    · rcases natural?_of_bounded?_eq_some h with hw | ⟨ds, rfl, hds⟩
      · exact .inl (.decimal (natural?_ten_eq_some_iff.mp hw))
      · exact .inr (.decimal (natural?_ten_eq_some_iff.mp hds))
  · rintro (h | h)
    · exact h.byte?_eq
    · exact h.byte?_eq

theorem byte?_eq_some_iff_of_plus_notMem (hw : '+' ∉ w) :
    byte? w = some b ↔ IsByteNumeral w b := by
  rw [byte?_eq_some_iff, or_iff_left]
  exact fun h ↦ hw h.plus_mem

/-! ## Columns -/

section columns

variable {α : Type} {name field : String} {read? : List Char → Option α}

theorem column_eq_ok_iff {a : α} :
    column name read? field = .ok a ↔ read? (trim isBlank field.toList) = some a := by
  rw [column]
  cases read? (trim isBlank field.toList) <;> simp

theorem column_eq_error_iff {fault : RowFault} :
    column name read? field = .error fault ↔
      read? (trim isBlank field.toList) = none ∧
        fault = .column name (.ofList (trim isBlank field.toList)) := by
  rw [column]
  cases read? (trim isBlank field.toList) <;> simp [eq_comm]

end columns

/-! ## Rows -/

variable {high low name length spec : String}

/-- A row is read if all its columns are. -/
theorem formatOf_eq_ok_iff {f : MessageFormat} :
    formatOf high low name length spec = .ok f ↔
      byte? (trim isBlank high.toList) = some f.header.high ∧
        byte? (trim isBlank low.toList) = some f.header.low ∧ name = f.name ∧
        length? (trim isBlank length.toList) = some f.length ∧ spec = f.spec := by
  rw [← @column_eq_ok_iff _ "id_high", ← @column_eq_ok_iff _ "id_low",
    ← @column_eq_ok_iff _ "length", formatOf]
  cases column "id_high" byte? high with
  | error => simp [bind, Except.bind]
  | ok h =>
      cases column "id_low" byte? low with
      | error => simp [bind, Except.bind]
      | ok l =>
          cases column "length" length? length with
          | error => simp [bind, Except.bind]
          | ok n =>
              obtain ⟨⟨high', low'⟩, name', length', spec'⟩ := f
              simp [bind, Except.bind, pure, Except.pure, and_assoc]

/-- The first column that is not read is the fault of a row. -/
theorem formatOf_eq_error_iff {fault : RowFault} :
    formatOf high low name length spec = .error fault ↔
      column "id_high" byte? high = .error fault ∨
      (∃ h, column "id_high" byte? high = .ok h) ∧
        (column "id_low" byte? low = .error fault ∨
        (∃ l, column "id_low" byte? low = .ok l) ∧
          column "length" length? length = .error fault) := by
  rw [formatOf]
  cases column "id_high" byte? high with
  | error => simp [bind, Except.bind]
  | ok h =>
      cases column "id_low" byte? low with
      | error => simp [bind, Except.bind]
      | ok l =>
          cases column "length" length? length with
          | error => simp [bind, Except.bind]
          | ok n => simp [bind, Except.bind, pure, Except.pure]

theorem formatOf_eq_error_high_iff {value : String} :
    formatOf high low name length spec = .error (.column "id_high" value) ↔
      byte? (trim isBlank high.toList) = none ∧ value = .ofList (trim isBlank high.toList) := by
  simp [formatOf_eq_error_iff, column_eq_error_iff]

theorem formatOf_eq_error_low_iff {value : String} :
    formatOf high low name length spec = .error (.column "id_low" value) ↔
      byte? (trim isBlank high.toList) ≠ none ∧ byte? (trim isBlank low.toList) = none ∧
        value = .ofList (trim isBlank low.toList) := by
  simp [formatOf_eq_error_iff, column_eq_error_iff, column_eq_ok_iff, Option.ne_none_iff_exists']

/-- A row with all columns, or with all but the last. -/
theorem ofRow_eq_formatOf (spec : Option String) :
    ofRow (high :: low :: name :: length :: spec.toList) =
      formatOf high low name length (spec.getD "") := by
  cases spec <;> rfl

/-- **What is read as a byte of a header.**  A text is read as a byte exactly if it is the byte in
decimal, or in hexadecimal behind `0x`, with any zeros in front, or if it is that with a plus sign
in front of the digits; so without a plus sign only numerals are read.  A row of a catalog, the spec
of which may be missing, is read exactly if its first two columns, its length and the rest are, the
columns of the header being read like any text after the blanks at their ends have been taken off.
It is refused for a column of its header exactly if that column, without these blanks, is no byte,
and the columns before it are read. -/
theorem reads_header_bytes (v : String) (b : UInt8) (high low name length : String)
    (spec : Option String) :
    (byte? v.toList = some b ↔ IsByteNumeral v.toList b ∨ IsPlusNumeral v.toList b) ∧
    ('+' ∉ v.toList → (byte? v.toList = some b ↔ IsByteNumeral v.toList b)) ∧
    (∀ f, ofRow (high :: low :: name :: length :: spec.toList) = .ok f ↔
      byte? (trim isBlank high.toList) = some f.header.high ∧
        byte? (trim isBlank low.toList) = some f.header.low ∧ name = f.name ∧
        length? (trim isBlank length.toList) = some f.length ∧ spec.getD "" = f.spec) ∧
    (∀ value, ofRow (high :: low :: name :: length :: spec.toList) =
        .error (.column "id_high" value) ↔
      byte? (trim isBlank high.toList) = none ∧ value = .ofList (trim isBlank high.toList)) ∧
    ∀ value, ofRow (high :: low :: name :: length :: spec.toList) =
        .error (.column "id_low" value) ↔
      byte? (trim isBlank high.toList) ≠ none ∧ byte? (trim isBlank low.toList) = none ∧
        value = .ofList (trim isBlank low.toList) := by
  simp only [ofRow_eq_formatOf]
  refine ⟨byte?_eq_some_iff, byte?_eq_some_iff_of_plus_notMem, ?_, ?_, ?_⟩
  · exact fun _ ↦ formatOf_eq_ok_iff
  · exact fun _ ↦ formatOf_eq_error_high_iff
  · exact fun _ ↦ formatOf_eq_error_low_iff

/-- Zeros behind `0X` and letters in both cases, and a row with blanks of all kinds around a byte in
decimal and one with a plus sign behind `0x`. -/
theorem reads_header_bytes_behind_zeros :
    let v := "0X000fF"
    let high := "\u2003 255\t"
    let low := "0x+5\n"
    ('+' ∉ v.toList ∧ byte? v.toList = some 255) ∧ IsByteNumeral v.toList 255 ∧
      ofRow [high, low, "Speed", "1"] = .ok ⟨⟨255, 5⟩, "Speed", 1, ""⟩ := by
  intro v high low
  have hv : '+' ∉ v.toList := by decide
  have hbyte : byte? v.toList = some 255 := by decide
  obtain ⟨-, hnumeral, hrow, -⟩ := reads_header_bytes v 255 high low "Speed" "1" none
  refine ⟨⟨hv, hbyte⟩, (hnumeral hv).mp hbyte, (hrow ⟨⟨255, 5⟩, "Speed", 1, ""⟩).mpr ?_⟩
  exact ⟨by decide +kernel, by decide +kernel, rfl, by decide +kernel, rfl⟩

/-- A plus sign is passed over in decimal, and in hexadecimal behind `0x` too, although the text is
no numeral. -/
theorem byte?_passes_over_plus :
    (byte? "0x+5".toList = some 5 ∧ ∀ b, ¬ IsByteNumeral "0x+5".toList b) ∧
      byte? "+5".toList = some 5 ∧ ∀ b, ¬ IsByteNumeral "+5".toList b := by
  refine ⟨⟨by decide, ?_⟩, by decide, ?_⟩
  · rintro b (h | ⟨-, h⟩)
    · exact absurd (h.isDigit (c := 'x') (by decide)) (by decide)
    · have hread : natural? 16 "+5".toList = some b.toNat := h.natural?_eq
      cases hread
  · rintro b (h | -)
    exact absurd (h.isDigit (c := '+') (by decide)) (by decide)

end LinkMonitor.Table
