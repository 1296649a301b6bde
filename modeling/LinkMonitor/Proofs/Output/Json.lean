import LinkMonitor.Proofs.Output.Lines
import LinkMonitor.Proofs.Text.Numerals
import LinkMonitor.Proofs.Text.Words

/-!
# Events that can be told apart

An event printed as JSON is one line, whatever the texts in it are, because no control character is
ever printed as it stands (`Json.le_of_mem_compact`).  And the line can be read back: a quoted text
ends with the first quote that is not escaped, and every escape stands for one character
(`Json.unescape?_escaped`).  So what is printed of a sequence of events tells which events these
were, but for the notes, which are printed elsewhere.
-/

namespace LinkMonitor.Output

open LinkMonitor.Text

namespace Json

/-! ## Quoted texts -/

/-- The character that an escape stands for, from the characters behind the backslash, and what
follows the escape. -/
def escape? : List Char → Option (Char × List Char)
  | '"' :: cs => some ('"', cs)
  | '\\' :: cs => some ('\\', cs)
  | 'b' :: cs => some ('\x08', cs)
  | 't' :: cs => some ('\t', cs)
  | 'n' :: cs => some ('\n', cs)
  | 'f' :: cs => some ('\x0c', cs)
  | 'r' :: cs => some ('\r', cs)
  | 'u' :: cs => (natural? 16 (cs.take 4)).map fun n ↦ (Char.ofNat n, cs.drop 4)
  | _ => none

/-- The first character of a quoted text, and what follows it, unless the text is at its end. -/
def unescape? : List Char → Option (Char × List Char)
  | [] => none
  | '"' :: _ => none
  | '\\' :: cs => escape? cs
  | c :: cs => some (c, cs)

theorem escape?_control {c : Char} (hc : c.toNat < 0x20) (cs : List Char) :
    escape? ('u' :: '0' :: '0' :: Nat.digitChar (c.toNat / 16) :: Nat.digitChar (c.toNat % 16) ::
      cs) = some (c, cs) := by
  have hzero : digit? 16 '0' = some 0 := rfl
  have hhigh : digit? 16 (Nat.digitChar (c.toNat / 16)) = some (c.toNat / 16) :=
    digit?_digitChar (by omega) (Nat.le_refl 16)
  have hlow : digit? 16 (Nat.digitChar (c.toNat % 16)) = some (c.toNat % 16) :=
    digit?_digitChar (by omega) (Nat.le_refl 16)
  have hvalue : natural? 16 ['0', '0', Nat.digitChar (c.toNat / 16), Nat.digitChar (c.toNat % 16)]
      = some c.toNat := by
    simp only [natural?_cons, extend?, hzero, hhigh, hlow, Option.bind_some, Option.some.injEq]
    omega
  simp [escape?, hvalue]

/-- Every escape stands for the character that was escaped. -/
theorem unescape?_escaped (c : Char) (cs : List Char) :
    unescape? (escaped c ++ cs) = some (c, cs) := by
  unfold escaped
  split
  · rfl
  · rfl
  · rfl
  · rfl
  · rfl
  · rfl
  · rfl
  · rename_i hquote hbackslash _ _ _ _ _
    split
    · rename_i hc
      exact escape?_control hc cs
    · -- Only a quote or a backslash would be read as anything else.
      simp only [List.singleton_append, unescape?]

variable {s t : List Char} {u v : List Char}

/-- Quoted texts can be told apart, and the end of one is found whatever stands behind it. -/
theorem flatMap_escaped_inj
    (h : s.flatMap escaped ++ '"' :: u = t.flatMap escaped ++ '"' :: v) : s = t ∧ u = v := by
  -- One character is read from both sides at a time.  Where one side has none left, there is a
  -- quote, and the other side cannot go on either.
  induction s generalizing t with
  | nil =>
      cases t with
      | nil => exact ⟨rfl, (List.cons.inj h).2⟩
      | cons d t =>
          have hread := congrArg unescape? h
          rw [List.flatMap_cons, List.append_assoc, unescape?_escaped] at hread
          cases hread
  | cons c s ih =>
      have hread := congrArg unescape? h
      rw [List.flatMap_cons, List.append_assoc, unescape?_escaped] at hread
      cases t with
      | nil => cases hread
      | cons d t =>
          rw [List.flatMap_cons, List.append_assoc, unescape?_escaped] at hread
          obtain ⟨rfl, hrest⟩ := Prod.mk.inj (Option.some.inj hread)
          obtain ⟨rfl, rfl⟩ := ih hrest
          exact ⟨rfl, rfl⟩

theorem quoted_append_inj {s t : String} (h : quoted s ++ u = quoted t ++ v) : s = t ∧ u = v := by
  simp only [quoted, List.cons_append, List.append_assoc, List.nil_append] at h
  obtain ⟨hs, hu⟩ := flatMap_escaped_inj (List.cons.inj h).2
  exact ⟨String.toList_inj.mp hs, hu⟩

theorem quoted_injective : Function.Injective quoted := by
  intro s t h
  exact (quoted_append_inj (u := []) (v := []) (by simpa using h)).1

/-! ## Control characters -/

theorem le_digitChar {n : Nat} (hn : n < 16) : 0x20 ≤ (Nat.digitChar n).toNat := by
  have := (range_of_digit?_eq_some (digit?_digitChar hn (Nat.le_refl 16))).1
  omega

theorem le_of_mem_escaped (c : Char) : ∀ d ∈ escaped c, 0x20 ≤ d.toNat := by
  unfold escaped
  split
  case h_8 =>
    split
    · have hhigh : 0x20 ≤ (Nat.digitChar (c.toNat / 16)).toNat := le_digitChar (by omega)
      have hlow : 0x20 ≤ (Nat.digitChar (c.toNat % 16)).toNat := le_digitChar (by omega)
      simp [hhigh, hlow]
    · intro d hd
      obtain rfl := List.mem_singleton.mp hd
      omega
  all_goals simp

theorem le_of_mem_quoted {s : String} {c : Char} (hc : c ∈ quoted s) : 0x20 ≤ c.toNat := by
  simp only [quoted, List.mem_cons, List.mem_append, List.mem_flatMap, List.not_mem_nil,
    or_false] at hc
  rcases hc with rfl | ⟨d, -, hc⟩ | rfl
  · decide
  · exact le_of_mem_escaped d c hc
  · decide

theorem le_of_mem_joined {c : Char} {ws : List (List Char)}
    (h : ∀ w ∈ ws, ∀ c ∈ w, 0x20 ≤ c.toNat) (hc : c ∈ [','].intercalate ws) : 0x20 ≤ c.toNat := by
  rcases mem_of_mem_intercalate hc with rfl | ⟨w, hw, hc⟩
  · decide
  · exact h w hw c hc

mutual

/-- Nothing that is printed without any space holds a control character. -/
theorem le_of_mem_compact : ∀ (v : Json), ∀ c ∈ v.compact, 0x20 ≤ c.toNat
  | .text s, c, hc => le_of_mem_quoted hc
  | .number n, c, hc => by
      have := (range_of_mem_decimal hc).1
      omega
  | .array items, c, hc => by
      simp only [compact, List.mem_cons, List.mem_append, List.not_mem_nil, or_false] at hc
      rcases hc with rfl | hc | rfl
      · decide
      · exact le_of_mem_joined (le_of_mem_compactAll items) hc
      · decide
  | .object fields, c, hc => by
      simp only [compact, List.mem_cons, List.mem_append, List.not_mem_nil, or_false] at hc
      rcases hc with rfl | hc | rfl
      · decide
      · exact le_of_mem_joined (le_of_mem_compactFields fields) hc
      · decide

theorem le_of_mem_compactAll : ∀ (vs : List Json), ∀ w ∈ compactAll vs, ∀ c ∈ w, 0x20 ≤ c.toNat
  | [], w, hw => by cases hw
  | v :: vs, w, hw => by
      rcases List.mem_cons.mp hw with rfl | hw
      · exact le_of_mem_compact v
      · exact le_of_mem_compactAll vs w hw

theorem le_of_mem_compactFields :
    ∀ (fields : List (String × Json)), ∀ w ∈ compactFields fields, ∀ c ∈ w, 0x20 ≤ c.toNat
  | [], w, hw => by cases hw
  | (key, v) :: fields, w, hw => by
      rcases List.mem_cons.mp hw with rfl | hw
      · intro c hc
        rcases List.mem_append.mp hc with hc | hc
        · exact le_of_mem_quoted hc
        · rcases List.mem_cons.mp hc with rfl | hc
          · decide
          · exact le_of_mem_compact v c hc
      · exact le_of_mem_compactFields fields w hw

end

end Json

/-! ## Events -/

/-- The name of the kind of an event, and what the event holds. -/
def kindAndValue : Event → String × Json
  | .decoded text => ("decoded_message", .text text)
  | .unrecognized byte => ("unrecognized_byte", .number byte.toNat)
  | .note text => ("status_note", .text text)

theorem compact_eventJson (e : Event) :
    (eventJson none e).compact =
      '\x7b' :: (Json.quoted "kind" ++ ':' :: (Json.quoted (kindAndValue e).1 ++
        ',' :: (Json.quoted "value" ++ ':' :: ((kindAndValue e).2.compact ++ ['\x7d'])))) := by
  cases e <;>
    simp [eventJson, kindAndValue, Json.compact, Json.compactFields, List.intercalate_cons_cons]

theorem decimal_injective : Function.Injective decimal := by
  intro m n h
  have hread := congrArg (natural? 10) h
  rw [natural?_decimal, natural?_decimal] at hread
  exact Option.some.inj hread

/-- The kind of an event tells what kind of value it has, and the value tells the rest. -/
theorem eq_of_kindAndValue {e e' : Event} (hkind : (kindAndValue e).1 = (kindAndValue e').1)
    (hvalue : (kindAndValue e).2.compact = (kindAndValue e').2.compact) : e = e' := by
  cases e with
  | decoded text =>
      cases e' with
      | decoded text' => rw [Json.quoted_injective hvalue]
      | unrecognized | note => simp [kindAndValue] at hkind
  | unrecognized byte =>
      cases e' with
      | unrecognized byte' => rw [UInt8.toNat_inj.mp (decimal_injective hvalue)]
      | decoded | note => simp [kindAndValue] at hkind
  | note text =>
      cases e' with
      | note text' => rw [Json.quoted_injective hvalue]
      | decoded | unrecognized => simp [kindAndValue] at hkind

/-- The line for an event that is printed as JSON without the time. -/
def jsonLine (e : Event) : String := .ofList (eventJson none e).compact

theorem out_printAll_json (quiet : Bool) (stamp : String) (es : List Event) :
    (({ json := true, quiet } : Options).printAll stamp es).out =
      (es.filter (!·.isNote)).map jsonLine :=
  out_printAll _ stamp es

theorem le_of_mem_jsonLine {e : Event} {c : Char} (hc : c ∈ (jsonLine e).toList) :
    0x20 ≤ c.toNat := by
  rw [jsonLine, String.toList_ofList] at hc
  exact Json.le_of_mem_compact _ c hc

theorem isLines_map_jsonLine (es : List Event) :
    IsLines (text (es.map jsonLine)) (es.map jsonLine) := by
  refine ⟨rfl, ?_⟩
  intro line hline hfeed
  obtain ⟨e, -, rfl⟩ := List.mem_map.mp hline
  exact absurd (le_of_mem_jsonLine hfeed) (by decide)

/-- What is printed of an event without the time tells which event it was. -/
theorem jsonLine_injective : Function.Injective jsonLine := by
  intro e e' h
  have hcompact : (eventJson none e).compact = (eventJson none e').compact :=
    String.ofList_injective h
  rw [compact_eventJson, compact_eventJson] at hcompact
  obtain ⟨-, hbehind⟩ := Json.quoted_append_inj (List.cons.inj hcompact).2
  obtain ⟨hkind, hbehind⟩ := Json.quoted_append_inj (List.cons.inj hbehind).2
  obtain ⟨-, hbehind⟩ := Json.quoted_append_inj (List.cons.inj hbehind).2
  exact eq_of_kindAndValue hkind (List.append_cancel_right (List.cons.inj hbehind).2)

/-- **Lines of JSON tell events apart.**  Printed as JSON without times, any sequence of events
gives one line for each event that is no note, and nothing else; no line holds a control character.
Two sequences give the same output only if they are the same but for the notes, whether or not quiet
is asked for. -/
theorem isLines_printAll_json (quiet quiet' : Bool) (stamp stamp' : String) (es es' : List Event) :
    let out := (({ json := true, quiet } : Options).printAll stamp es).out
    let out' := (({ json := true, quiet := quiet' } : Options).printAll stamp' es').out
    IsLines (text out) ((es.filter (!·.isNote)).map jsonLine) ∧
      (∀ line ∈ out, ∀ c ∈ line.toList, 0x20 ≤ c.toNat) ∧
      (text out = text out' ↔ es.filter (!·.isNote) = es'.filter (!·.isNote)) := by
  intro out out'
  simp only [out, out', out_printAll_json]
  refine ⟨isLines_map_jsonLine _, ?_, ?_⟩
  · intro line hline c hc
    obtain ⟨e, -, rfl⟩ := List.mem_map.mp hline
    exact le_of_mem_jsonLine hc
  · constructor
    · intro h
      have hlines := isLines_map_jsonLine (es.filter (!·.isNote))
      have hlines' := isLines_map_jsonLine (es'.filter (!·.isNote))
      rw [← h] at hlines'
      exact List.map_injective_iff.mpr jsonLine_injective (hlines.unique hlines')
    · intro h
      rw [h]

end LinkMonitor.Output
