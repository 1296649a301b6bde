import LinkMonitor.Payload.Rendering
import LinkMonitor.Proofs.Payload.Grammar

/-!
# The characters of a decoded payload

Whatever the bytes of a payload are, they cannot put a line break or any other control character
into the text.  Numbers, bytes in hexadecimal and bytes as characters are all shown with printable
characters of ASCII (`mem_piece`).  What else can be in the text are characters of literals, and
these are words of the spec, so that they hold no blanks.
-/

namespace LinkMonitor.Payload

open LinkMonitor.Text LinkMonitor.Decimal

/-- A printable character of ASCII. -/
def IsPrintable (c : Char) : Prop := 0x20 ≤ c.toNat ∧ c.toNat ≤ 0x7E

instance (c : Char) : Decidable (IsPrintable c) := inferInstanceAs (Decidable (_ ∧ _))

/-! ## Numbers -/

section Numbers

variable {c : Char}

theorem isPrintable_of_range (h : 0x30 ≤ c.toNat ∧ c.toNat ≤ 0x66) : IsPrintable c :=
  ⟨by omega, by omega⟩

theorem isPrintable_of_mem_decimal {n : Nat} (hc : c ∈ decimal n) : IsPrintable c :=
  isPrintable_of_range (range_of_mem_decimal hc)

theorem isPrintable_of_mem_signedDecimal {n : Int} (hc : c ∈ signedDecimal n) : IsPrintable c := by
  cases n with
  | ofNat n => exact isPrintable_of_mem_decimal hc
  | negSucc n =>
      rcases List.mem_cons.mp hc with rfl | hc
      · decide
      · exact isPrintable_of_mem_decimal hc

theorem isPrintable_of_mem_replicate {n : Nat} (hc : c ∈ List.replicate n '0') : IsPrintable c := by
  obtain rfl := List.eq_of_mem_replicate hc
  decide

theorem isPrintable_of_mem_scientific {s : Scientific} (hc : c ∈ s.plain) : IsPrintable c := by
  simp only [Scientific.plain] at hc
  split at hc
  · -- Zeros up to the units.
    rcases List.mem_append.mp hc with hc | hc
    · exact isPrintable_of_mem_decimal hc
    · exact isPrintable_of_mem_replicate hc
  · split at hc
    · -- A point among the digits.
      rcases List.mem_append.mp hc with hc | hc
      · exact isPrintable_of_mem_decimal (List.mem_of_mem_take hc)
      · rcases List.mem_cons.mp hc with rfl | hc
        · decide
        · exact isPrintable_of_mem_decimal (List.mem_of_mem_drop hc)
    · -- Zeros between the point and the digits.
      simp only [List.mem_cons, List.mem_append] at hc
      rcases hc with rfl | rfl | hc | hc
      · decide
      · decide
      · exact isPrintable_of_mem_replicate hc
      · exact isPrintable_of_mem_decimal hc

theorem isPrintable_of_mem_signed {negative : Bool} {text : List Char}
    (h : ∀ c ∈ text, IsPrintable c) (hc : c ∈ Binary.plain.signed negative text) :
    IsPrintable c := by
  unfold Binary.plain.signed at hc
  split at hc
  · rcases List.mem_cons.mp hc with rfl | hc
    · decide
    · exact h c hc
  · exact h c hc

theorem isPrintable_of_mem_plain {b : Binary} (hc : c ∈ b.plain) : IsPrintable c := by
  cases b with
  | nan =>
      have hnan : ∀ c ∈ ['N', 'a', 'N'], IsPrintable c := by simp [IsPrintable]
      exact hnan c hc
  | infinite negative => exact isPrintable_of_mem_signed (by simp [IsPrintable]) hc
  | finite negative mantissa exponent leading =>
      rw [Binary.plain] at hc
      split at hc
      · exact isPrintable_of_mem_signed (by simp [IsPrintable]) hc
      · exact isPrintable_of_mem_signed (fun _ ↦ isPrintable_of_mem_scientific) hc

theorem isPrintable_of_mem_number {n : Number} (hc : c ∈ n.text.toList) : IsPrintable c := by
  cases n with
  | exact n =>
      rw [Number.text_exact, String.toList_ofList] at hc
      exact isPrintable_of_mem_signedDecimal hc
  | real x =>
      rw [Number.text_real, String.toList_ofList] at hc
      exact isPrintable_of_mem_plain hc

end Numbers

/-! ## Bytes -/

theorem isPrintable_of_mem_hexBytes {bs : List UInt8} {c : Char} (hc : c ∈ hexBytes bs) :
    IsPrintable c := by
  obtain ⟨b, -, hc⟩ := List.mem_flatMap.mp hc
  exact isPrintable_of_range (range_of_mem_hexByte hc)

theorem isPrintable_printable (b : UInt8) : IsPrintable (printable b) := by
  have hall : ∀ n < 256, IsPrintable (printable (.ofNat n)) := by decide +kernel
  rw [← UInt8.ofNat_toNat (x := b)]
  exact hall b.toNat b.toNat_lt

theorem isPrintable_of_mem_asciiText {bs : List UInt8} {c : Char} (hc : c ∈ asciiText bs) :
    IsPrintable c := by
  obtain ⟨b, -, rfl⟩ := List.mem_map.mp hc
  exact isPrintable_printable b

/-! ## Directives -/

theorem exists_of_map_eq_ok {ε α β : Type} {f : α → β} {x : Except ε α} {b : β}
    (h : x.map f = .ok b) : ∃ a, x = .ok a ∧ f a = b := by
  cases x with
  | error e => cases h
  | ok a => exact ⟨a, rfl, Except.ok.inj h⟩

/-- Where a directive shows something, its characters are printable or stand in the directive. -/
theorem mem_render {d : Directive} {c : Cursor} {text : String} {x : Char}
    (h : (d.render c).1 = .ok text) (hx : x ∈ text.toList) :
    IsPrintable x ∨ d = .literal text := by
  cases d with
  | field k ts =>
      obtain ⟨n, -, rfl⟩ := exists_of_map_eq_ok h
      exact .inl (isPrintable_of_mem_number hx)
  | hex count =>
      obtain ⟨bs, -, rfl⟩ := exists_of_map_eq_ok h
      rw [String.toList_ofList] at hx
      exact .inl (isPrintable_of_mem_hexBytes hx)
  | ascii count =>
      have hbytes : ∃ bs, .ofList (asciiText bs) = text := by
        cases count with
        | none => exact ⟨_, Except.ok.inj h⟩
        | some count =>
            obtain ⟨bs, -, hbs⟩ := exists_of_map_eq_ok h
            exact ⟨bs, hbs⟩
      obtain ⟨bs, rfl⟩ := hbytes
      rw [String.toList_ofList] at hx
      exact .inl (isPrintable_of_mem_asciiText hx)
  | literal text' =>
      obtain rfl := Except.ok.inj h
      exact .inr rfl

theorem mem_piece {d : Directive} {c : Cursor} {x : Char} (hx : x ∈ (d.piece c).toList) :
    IsPrintable x ∨ ∃ text : String, d = .literal text ∧ x ∈ text.toList := by
  unfold Directive.piece at hx
  split at hx
  · rename_i text h
    exact (mem_render h hx).imp_right fun hd ↦ ⟨text, hd, hx⟩
  · have hdiagnostic : ∀ x ∈ diagnostic.toList, IsPrintable x := by simp [diagnostic, IsPrintable]
    exact .inl (hdiagnostic x hx)

/-! ## Payloads -/

theorem exists_of_mem_pieces {ds : List Directive} {c : Cursor} {p : String}
    (hp : p ∈ pieces ds c) : ∃ d ∈ ds, ∃ c', p = d.piece c' := by
  induction ds generalizing c with
  | nil => cases hp
  | cons d ds ih =>
      rcases List.mem_cons.mp hp with rfl | hp
      · exact ⟨d, List.mem_cons_self .., c, rfl⟩
      · obtain ⟨d', hd', h⟩ := ih hp
        exact ⟨d', List.mem_cons_of_mem d hd', h⟩

theorem mem_of_joined_eq_some {ps : List String} {text : String} {x : Char}
    (h : joined ps = some text) (hx : x ∈ text.toList) : x = ' ' ∨ ∃ p ∈ ps, x ∈ p.toList := by
  unfold joined at h
  split at h
  · cases h
  · obtain rfl := Option.some.inj h
    rw [String.toList_intercalate] at hx
    rcases mem_of_mem_intercalate hx with rfl | ⟨w, hw, hx⟩
    · exact .inl rfl
    · obtain ⟨p, hp, rfl⟩ := List.mem_map.mp hw
      exact .inr ⟨p, (List.mem_filter.mp hp).1, hx⟩

/-- The characters of a decoded payload are printable or stand in a literal of the spec. -/
theorem mem_of_decode_eq_some {spec : String} {payload : List UInt8} {text : String} {x : Char}
    (h : decode spec payload = some text) (hx : x ∈ text.toList) :
    IsPrintable x ∨
      ∃ word : String, .literal word ∈ Directive.ofSpec spec ∧ x ∈ word.toList := by
  rcases mem_of_joined_eq_some h hx with rfl | ⟨p, hp, hx⟩
  · exact .inl (by decide)
  · obtain ⟨d, hd, c, rfl⟩ := exists_of_mem_pieces hp
    rcases mem_piece hx with hprint | ⟨word, rfl, hx⟩
    · exact .inl hprint
    · exact .inr ⟨word, hd, hx⟩

theorem Directive.wellFormed_of_mem_ofSpec {spec : String} {d : Directive}
    (hd : d ∈ ofSpec spec) : d.WellFormed :=
  (derives_ofWords _).wellFormed (splits_words _).isWord d hd

theorem blank_notMem_decode {spec : String} {payload : List UInt8} {text : String} {x : Char}
    (h : decode spec payload = some text) (hblank : isSpecBlank x = true)
    (hprint : ¬ IsPrintable x) : x ∉ text.toList := by
  intro hx
  rcases mem_of_decode_eq_some h hx with hx | ⟨word, hword, hx⟩
  · exact hprint hx
  · rw [(Directive.wellFormed_of_mem_ofSpec hword).isBlank_eq_false hx] at hblank
    contradiction

/-- A decoded payload is a single line. -/
theorem lineFeed_notMem_decode {spec : String} {payload : List UInt8} {text : String}
    (h : decode spec payload = some text) : '\n' ∉ text.toList :=
  blank_notMem_decode h rfl (by decide)

/-- A literal is a word of the spec, less a backslash. -/
theorem Directive.Derives.exists_unescapes {ws : List (List Char)} {ds : List Directive}
    {text : String} (h : Derives ws ds) (htext : .literal text ∈ ds) :
    ∃ w ∈ ws, Unescapes w text.toList := by
  induction h with
  | nil => cases htext
  | @field k used ws ts ds _ _ _ ih =>
      obtain ⟨w, hw, hunescape⟩ := ih (by simpa using htext)
      exact ⟨w, List.mem_cons_of_mem _ (List.mem_append_right used hw), hunescape⟩
  | @word w d ws ds _ hd _ ih =>
      rcases List.mem_cons.mp htext with rfl | htext
      · cases hd with
        | literal _ hunescape =>
            rw [String.toList_ofList]
            exact ⟨w, List.mem_cons_self .., hunescape⟩
      · obtain ⟨w', hw', hunescape⟩ := ih htext
        exact ⟨w', List.mem_cons_of_mem w hw', hunescape⟩

/-- **Payloads inject nothing.**  Whatever the bytes of a payload are, a character of its text is a
printable one of ASCII, or it stands in a literal of the spec, and then in a word of the spec.  So
there is no tab, no line feed, no form feed and no carriage return in the text. -/
theorem isPrintable_or_mem_literal {spec : String} {payload : List UInt8} {text : String}
    (h : decode spec payload = some text) :
    (∀ x ∈ text.toList, IsPrintable x ∨
      ∃ word : String, .literal word ∈ Directive.ofSpec spec ∧ x ∈ word.toList ∧
        ∃ w ∈ words isSpecBlank spec.toList, Directive.Unescapes w word.toList) ∧
    ∀ x ∈ ['\t', '\n', '\x0c', '\r'], x ∉ text.toList := by
  constructor
  · intro x hx
    rcases mem_of_decode_eq_some h hx with hprint | ⟨word, hword, hx⟩
    · exact .inl hprint
    · have htoken := (Directive.derives_ofWords _).exists_unescapes hword
      exact .inr ⟨word, hword, hx, htoken⟩
  · intro x hx
    simp only [List.mem_cons, List.not_mem_nil, or_false] at hx
    rcases hx with rfl | rfl | rfl | rfl
    · exact blank_notMem_decode h rfl (by decide)
    · exact blank_notMem_decode h rfl (by decide)
    · exact blank_notMem_decode h rfl (by decide)
    · exact blank_notMem_decode h rfl (by decide)

/-- A run of line ends, a tab and an escape, a double that is infinite, a division by zero, a
literal beyond ASCII, and a form feed between two words. -/
theorem isPrintable_or_mem_literal_of_line_ends :
    let spec := "µ a5\x0cd C / 0 x"
    let payload : List UInt8 :=
      [0x0D, 0x0A, 0x09, 0x1B, 0x41, 0, 0, 0, 0, 0, 0, 0xF0, 0xFF, 0x0A, 0x0C]
    decode spec payload = some "µ ....A -inf ? 0C" ∧
      (∀ x ∈ "µ ....A -inf ? 0C".toList, IsPrintable x ∨
        ∃ word : String, .literal word ∈ Directive.ofSpec spec ∧ x ∈ word.toList ∧
          ∃ w ∈ words isSpecBlank spec.toList, Directive.Unescapes w word.toList) ∧
      ∀ x ∈ ['\t', '\n', '\x0c', '\r'], x ∉ "µ ....A -inf ? 0C".toList := by
  intro spec payload
  have hdecode : decode spec payload = some "µ ....A -inf ? 0C" := by decide +kernel
  exact ⟨hdecode, isPrintable_or_mem_literal hdecode⟩

end LinkMonitor.Payload
