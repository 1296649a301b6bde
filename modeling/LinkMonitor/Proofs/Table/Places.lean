import LinkMonitor.Proofs.Table.Scanning

/-!
# Where rows begin

Any bytes at all are laid out as rows with line ends and comments between them (`exists_layout`).
This is put down in a grammar of its own: `DenotesRow` says what the bytes of a row are, with fields
that may have bytes behind their closing quote, or no closing quote at the end of the file, and
`IsGap` says what may stand in front of a row.

A scanner takes note of the place behind the record before (`Layout.scan_eq`).  The row begins
behind the gap, so that this is on the line of the row only if there is no line feed in the gap.
Empty lines and comments are in the gap, and so is the line feed behind a carriage return that has
ended the row before.
-/

namespace LinkMonitor.Table

open Scanner

/-! ## Rows and gaps -/

/-- `DenotesField f bs`: the bytes `bs` are read as a field that holds `f`. -/
inductive DenotesField : List UInt8 → List UInt8 → Prop
  | bare {s : List UInt8} : (∀ b ∈ s, b ≠ comma ∧ endsRecord b = false) → s.head? ≠ some quote →
      DenotesField s s
  | /-- What stands behind the closing quote is part of the field. -/
    quoted {s t : List UInt8} : (∀ b ∈ t, b ≠ comma ∧ endsRecord b = false) →
      t.head? ≠ some quote → DenotesField (s ++ t) (quote :: (doubled s ++ quote :: t))

/-- `DenotesRow closed fs bs`: the bytes `bs` are read as the fields `fs`.  If the row is not
closed, the closing quote of its last field is missing, and the file has to end there. -/
inductive DenotesRow : Bool → List (List UInt8) → List UInt8 → Prop
  | last {f bs : List UInt8} : DenotesField f bs → DenotesRow true [f] bs
  | unclosed {s : List UInt8} : DenotesRow false [s] (quote :: doubled s)
  | cons {closed : Bool} {f bs rest : List UInt8} {fs : List (List UInt8)} : DenotesField f bs →
      DenotesRow closed fs rest → DenotesRow closed (f :: fs) (bs ++ comma :: rest)

/-- `IsGap bs`: the bytes `bs` are line ends and comments. -/
inductive IsGap : List UInt8 → Prop
  | nil : IsGap []
  | lineEnd {b : UInt8} {bs : List UInt8} : endsRecord b = true → IsGap bs → IsGap (b :: bs)
  | comment {note bs : List UInt8} : lineFeed ∉ note → IsGap bs →
      IsGap (hash :: (note ++ lineFeed :: bs))

/-- The bytes begin with neither a line end nor a comment. -/
def BeginsRow (bs : List UInt8) : Prop := ∃ b rest, bs = b :: rest ∧ endsRecord b = false ∧ b ≠ hash

/-- A row of a file. -/
structure Block where
  /-- Line ends and comments in front of the row. -/
  gap : List UInt8
  /-- The bytes of the row. -/
  row : List UInt8
  /-- The byte that ends the row, unless the end of the file does. -/
  ending : List UInt8
  /-- What the fields of the row hold. -/
  fields : List (List UInt8)

def Block.bytes (b : Block) : List UInt8 := b.gap ++ (b.row ++ b.ending)

/-- `Layout blocks bs`: the bytes `bs` of a file are the blocks `blocks` one after another. -/
inductive Layout : List Block → List UInt8 → Prop
  | nil {gap : List UInt8} : IsGap gap → Layout [] gap
  | cons {gap row rest : List UInt8} {e : UInt8} {fields : List (List UInt8)}
      {blocks : List Block} : IsGap gap → BeginsRow row → DenotesRow true fields row →
      endsRecord e = true → Layout blocks rest →
      Layout (⟨gap, row, [e], fields⟩ :: blocks) (gap ++ (row ++ e :: rest))
  | last {gap row : List UInt8} {closed : Bool} {fields : List (List UInt8)} : IsGap gap →
      BeginsRow row → DenotesRow closed fields row → Layout [⟨gap, row, [], fields⟩] (gap ++ row)
  | /-- A comment that the end of the file ends is a row with one empty field. -/
    comment {gap note : List UInt8} : IsGap gap → lineFeed ∉ note →
      Layout [⟨gap, hash :: note, [], [[]]⟩] (gap ++ hash :: note)

/-! ## Every file has a layout -/

theorem exists_bare (bs : List UInt8) : ∃ s rest, bs = s ++ rest ∧
    (∀ b ∈ s, b ≠ comma ∧ endsRecord b = false) ∧
    ∀ b ∈ rest.head?, b = comma ∨ endsRecord b = true := by
  induction bs with
  | nil => exact ⟨[], [], rfl, by simp, by simp⟩
  | cons b bs ih =>
      by_cases hb : b = comma ∨ endsRecord b = true
      · exact ⟨[], b :: bs, rfl, by simp, by simpa using hb⟩
      · obtain ⟨s, rest, rfl, hs, hrest⟩ := ih
        refine ⟨b :: s, rest, rfl, List.forall_mem_cons.mpr ⟨?_, hs⟩, hrest⟩
        simpa using hb

/-- Quotes come in pairs, up to the first one that does not. -/
theorem exists_doubled : ∀ bs : List UInt8, (∃ s, bs = doubled s) ∨
    ∃ s rest, bs = doubled s ++ quote :: rest ∧ rest.head? ≠ some quote
  | [] => .inl ⟨[], rfl⟩
  | [b] => by
      by_cases hb : b = quote
      · exact .inr ⟨[], [], by rw [hb]; rfl, by simp⟩
      · exact .inl ⟨[b], by rw [doubled_cons hb]; rfl⟩
  | b :: c :: bs => by
      by_cases hb : b = quote
      · subst hb
        by_cases hc : c = quote
        · subst hc
          rcases exists_doubled bs with ⟨s, rfl⟩ | ⟨s, rest, rfl, hrest⟩
          · exact .inl ⟨quote :: s, (doubled_cons_quote s).symm⟩
          · exact .inr ⟨quote :: s, rest, by rw [doubled_cons_quote]; rfl, hrest⟩
        · exact .inr ⟨[], c :: bs, rfl, by simpa using hc⟩
      · rcases exists_doubled (c :: bs) with ⟨s, hs⟩ | ⟨s, rest, hs, hrest⟩
        · exact .inl ⟨b :: s, by rw [doubled_cons hb, hs]⟩
        · exact .inr ⟨b :: s, rest, by rw [doubled_cons hb, hs]; rfl, hrest⟩

/-- A field goes on up to what ends it, unless its closing quote is missing. -/
theorem exists_denotesField (bs : List UInt8) : (∃ s, bs = quote :: doubled s) ∨
    ∃ f w rest, bs = w ++ rest ∧ DenotesField f w ∧
      ∀ b ∈ rest.head?, b = comma ∨ endsRecord b = true := by
  by_cases hquote : bs.head? = some quote
  · obtain ⟨bs, rfl⟩ := List.head?_eq_some_iff.mp hquote
    rcases exists_doubled bs with ⟨s, rfl⟩ | ⟨s, after, rfl, hafter⟩
    · exact .inl ⟨s, rfl⟩
    · obtain ⟨t, rest, rfl, ht, hrest⟩ := exists_bare after
      refine .inr ⟨s ++ t, quote :: (doubled s ++ quote :: t), rest, by simp, ?_, hrest⟩
      exact .quoted ht fun h ↦ hafter (by rw [List.head?_append, h]; rfl)
  · obtain ⟨s, rest, rfl, hs, hrest⟩ := exists_bare bs
    refine .inr ⟨s, s, rest, rfl, ?_, hrest⟩
    exact .bare hs fun h ↦ hquote (by rw [List.head?_append, h]; rfl)

theorem exists_denotesRow (bs : List UInt8) : ∃ closed fs row rest, bs = row ++ rest ∧
    DenotesRow closed fs row ∧
    (rest = [] ∨ closed = true ∧ ∃ e rest', rest = e :: rest' ∧ endsRecord e = true) := by
  induction hn : bs.length using Nat.strongRecOn generalizing bs with
  | ind n ih =>
      rcases exists_denotesField bs with ⟨s, rfl⟩ | ⟨f, w, rest, rfl, hf, hrest⟩
      · exact ⟨false, [s], _, [], (List.append_nil _).symm, .unclosed, .inl rfl⟩
      · cases rest with
        | nil => exact ⟨true, [f], w, [], rfl, .last hf, .inl rfl⟩
        | cons b rest =>
            rcases hrest b rfl with rfl | hb
            · have hlt : rest.length < n := by simp [← hn]; omega
              obtain ⟨closed, fs, row, rest, rfl, hrow, hend⟩ := ih _ hlt rest rfl
              exact ⟨closed, f :: fs, w ++ comma :: row, rest, by simp, .cons hf hrow, hend⟩
            · exact ⟨true, [f], w, b :: rest, rfl, .last hf, .inr ⟨rfl, b, rest, rfl, hb⟩⟩

theorem exists_isGap (bs : List UInt8) : ∃ gap rest, bs = gap ++ rest ∧ IsGap gap ∧
    (rest = [] ∨ BeginsRow rest ∨ ∃ note, rest = hash :: note ∧ lineFeed ∉ note) := by
  induction hn : bs.length using Nat.strongRecOn generalizing bs with
  | ind n ih =>
      cases bs with
      | nil => exact ⟨[], [], rfl, .nil, .inl rfl⟩
      | cons b bs =>
          have hlt : bs.length < n := by simp [← hn]
          by_cases hend : endsRecord b = true
          · obtain ⟨gap, rest, rfl, hgap, hrest⟩ := ih _ hlt bs rfl
            exact ⟨b :: gap, rest, rfl, .lineEnd hend hgap, hrest⟩
          · by_cases hhash : b = hash
            · subst hhash
              by_cases hfeed : lineFeed ∈ bs
              · obtain ⟨note, bs, rfl, hnote⟩ := List.eq_append_cons_of_mem hfeed
                have hlt' : bs.length < n := by simp at hlt; omega
                obtain ⟨gap, rest, rfl, hgap, hrest⟩ := ih _ hlt' bs rfl
                exact ⟨hash :: (note ++ lineFeed :: gap), rest, by simp, .comment hnote hgap, hrest⟩
              · exact ⟨[], hash :: bs, rfl, .nil, .inr (.inr ⟨bs, rfl, hfeed⟩)⟩
            · exact ⟨[], b :: bs, rfl, .nil, .inr (.inl ⟨b, bs, rfl, by simpa using hend, hhash⟩)⟩

/-- Any bytes at all are a file. -/
theorem exists_layout (bs : List UInt8) : ∃ blocks, Layout blocks bs := by
  induction hn : bs.length using Nat.strongRecOn generalizing bs with
  | ind n ih =>
      obtain ⟨gap, rest, rfl, hgap, rfl | hbegin | ⟨note, rfl, hnote⟩⟩ := exists_isGap bs
      · exact ⟨[], by rw [List.append_nil]; exact .nil hgap⟩
      · obtain ⟨closed, fs, row, rest, rfl, hrow, hend⟩ := exists_denotesRow rest
        rcases hend with rfl | ⟨rfl, e, rest, rfl, he⟩
        · rw [List.append_nil] at hbegin ⊢
          exact ⟨_, .last hgap hbegin hrow⟩
        · have hlt : rest.length < n := by simp [← hn]; omega
          obtain ⟨blocks, hblocks⟩ := ih _ hlt rest rfl
          obtain ⟨b, bs, hbs, hb⟩ := hbegin
          have hbegin : BeginsRow row := by
            cases row with
            | nil =>
                obtain ⟨rfl, -⟩ := List.cons.inj hbs
                rw [he] at hb
                cases hb.1
            | cons c row =>
                obtain ⟨rfl, -⟩ := List.cons.inj hbs
                exact ⟨c, row, rfl, hb⟩
          exact ⟨_, .cons hgap hbegin hrow he hblocks⟩
      · exact ⟨_, .comment hgap hnote⟩

/-! ## What is scanned -/

section Scanning

variable {f bs gap row : List UInt8} {fs fields : List (List UInt8)} {start here : Position}

theorem IsGap.scan_append (h : IsGap gap) :
    scan ⟨.between, f, fs, start, here⟩ (gap ++ bs) =
      scan ⟨.between, f, fs, start, here.past gap⟩ bs := by
  induction h generalizing here with
  | nil => rfl
  | @lineEnd b gap hb _ ih => rw [List.cons_append, scan_between_end hb, ih, ← Position.past_cons]
  | @comment note gap hnote _ ih =>
      rw [List.cons_append, List.append_assoc, List.cons_append, scan_between_hash,
        scan_comment_append hnote, scan_comment_lineFeed, ih, ← Position.past_cons,
        ← Position.past_append, ← Position.past_cons]

theorem BeginsRow.scan_append (h : BeginsRow row) :
    scan ⟨.between, f, fs, start, here⟩ (row ++ bs) =
      scan ⟨.opening, f, fs, start, here⟩ (row ++ bs) := by
  obtain ⟨b, rest, rfl, hend, hhash⟩ := h
  exact scan_between hend hhash

theorem head?_append_ne {s : List UInt8} {b : UInt8} (hs : s.head? ≠ some b)
    (hbs : bs.head? ≠ some b) : (s ++ bs).head? ≠ some b := by
  cases s with
  | nil => exact hbs
  | cons c s => exact hs

/-- A field in front of what ends it. -/
theorem DenotesField.scan_append {w : List UInt8} (h : DenotesField f w)
    (hbs : bs.head? ≠ some quote) :
    scan ⟨.opening, [], fs, start, here⟩ (w ++ bs) =
      scan ⟨.bare, f.reverse, fs, start, here.past w⟩ bs := by
  cases h with
  | bare hs hhead => exact scan_opening_bare hs (head?_append_ne hhead hbs)
  | @quoted s t ht hhead =>
      have hbytes : quote :: (doubled s ++ quote :: t) ++ bs =
          quote :: (doubled s ++ quote :: (t ++ bs)) := by simp
      have hplace : quote :: (doubled s ++ quote :: t) = quote :: (doubled s ++ [quote]) ++ t := by
        simp
      rw [hbytes, scan_opening_quoted s (head?_append_ne hhead hbs), scan_bare_append ht, hplace,
        Position.past_append, List.reverse_append]

/-- A row that a byte ends. -/
theorem DenotesRow.scan_append {closed : Bool} (h : DenotesRow closed fields row)
    (hclosed : closed = true) {e : UInt8} (he : endsRecord e = true) :
    scan ⟨.opening, [], fs, start, here⟩ (row ++ e :: bs) = ⟨start, fs.reverse ++ fields⟩ ::
      scan ⟨.between, [], [], (here.past (row ++ [e])).nextRecord,
        (here.past (row ++ [e])).nextRecord⟩ bs := by
  have hquote : (e :: bs).head? ≠ some quote := by
    rintro ⟨⟩
    contradiction
  induction h generalizing fs here with
  | last hf =>
      rw [hf.scan_append hquote, scan_bare_end he, Position.past_append]
      simp
  | unclosed => contradiction
  | @cons closed f w rest fields hf _ ih =>
      have hcomma : (comma :: (rest ++ e :: bs)).head? ≠ some quote := by simp [comma, quote]
      have hplace : here.past (w ++ comma :: rest ++ [e]) =
          ((here.past w).past [comma]).past (rest ++ [e]) := by
        rw [← Position.past_append, ← Position.past_append]
        simp
      rw [List.append_assoc, List.cons_append, hf.scan_append hcomma, scan_bare_comma, ih hclosed,
        hplace]
      simp

/-- A row that the end of the file ends. -/
theorem DenotesRow.scan_eq {closed : Bool} (h : DenotesRow closed fields row) :
    scan ⟨.opening, [], fs, start, here⟩ row = [⟨start, fs.reverse ++ fields⟩] := by
  induction h generalizing fs here with
  | @last f w hf =>
      rw [← List.append_nil w, hf.scan_append (by simp), scan_nil (by simp)]
      simp
  | @unclosed s =>
      rw [scan_opening_quote, ← List.append_nil (doubled s), scan_quoted_append, scan_nil (by simp)]
      simp
  | @cons closed f w rest fields hf _ ih =>
      have hcomma : (comma :: rest).head? ≠ some quote := by simp [comma, quote]
      rw [hf.scan_append hcomma, scan_bare_comma, ih]
      simp

end Scanning

/-! ## Lines -/

/-- The line and the fields of each row, where the first row is looked for from line `n` on. -/
def located (n : Nat) : List Block → List (Nat × List (List UInt8))
  | [] => []
  | b :: blocks => (n, b.fields) :: located (n + b.bytes.count lineFeed) blocks

/-- A row is looked for from the place behind the rows before it. -/
theorem exists_of_located_eq_append {n : Nat} {blocks : List Block}
    {xs ys : List (Nat × List (List UInt8))} {x : Nat × List (List UInt8)}
    (h : located n blocks = xs ++ x :: ys) :
    ∃ before b after, blocks = before ++ b :: after ∧ before.length = xs.length ∧
      x = (n + (before.flatMap Block.bytes).count lineFeed, b.fields) := by
  induction xs generalizing n blocks with
  | nil =>
      cases blocks with
      | nil => cases h
      | cons b blocks =>
          obtain ⟨rfl, -⟩ := List.cons.inj h
          exact ⟨[], b, blocks, rfl, rfl, rfl⟩
  | cons y xs ih =>
      cases blocks with
      | nil => cases h
      | cons c blocks =>
          obtain ⟨-, htail⟩ := List.cons.inj h
          obtain ⟨before, b, after, rfl, hlength, rfl⟩ := ih htail
          refine ⟨c :: before, b, after, rfl, by simp [hlength], ?_⟩
          rw [List.flatMap_cons, List.count_append, Nat.add_assoc]

/-- Each record is at the place behind the record before, and not at the row itself. -/
theorem Layout.scan_eq {blocks : List Block} {bs : List UInt8} (h : Layout blocks bs)
    {start here : Position} (hline : start.line = here.line) :
    (scan ⟨.between, [], [], start, here⟩ bs).map (fun r ↦ (r.position.line, r.fields)) =
      located here.line blocks := by
  induction h generalizing start here with
  | @nil gap hgap =>
      rw [← List.append_nil gap, hgap.scan_append]
      rfl
  | @cons gap row rest e fields blocks hgap hbegin hrow he _ ih =>
      have hplace : (here.past gap).past (row ++ [e]) = here.past (gap ++ (row ++ [e])) :=
        (Position.past_append ..).symm
      rw [hgap.scan_append, hbegin.scan_append, hrow.scan_append rfl he, List.map_cons, ih rfl,
        hplace, located, hline]
      rfl
  | @last gap row closed fields hgap hbegin hrow =>
      rw [hgap.scan_append, ← List.append_nil row, hbegin.scan_append, List.append_nil,
        hrow.scan_eq, located, ← hline]
      rfl
  | @comment gap note hgap hnote =>
      rw [hgap.scan_append, scan_between_hash, ← List.append_nil note, scan_comment_append hnote,
        scan_nil (by simp), located, ← hline]
      rfl

/-- The bytes of a row stand behind its gap, and its gap behind the rows before it. -/
theorem Layout.exists_eq {before after : List Block} {b : Block} {bs : List UInt8}
    (h : Layout (before ++ b :: after) bs) :
    ∃ rest, bs = before.flatMap Block.bytes ++ (b.gap ++ (b.row ++ rest)) := by
  induction before generalizing bs with
  | nil =>
      cases h with
      | @cons gap row rest e => exact ⟨e :: rest, rfl⟩
      | @last gap row => exact ⟨[], by simp⟩
      | @comment gap note => exact ⟨[], by simp⟩
  | cons c before ih =>
      rw [List.cons_append] at h
      generalize hblocks : before ++ b :: after = blocks at h
      cases h with
      | @cons gap row rest e fields _ hgap hbegin hrow he hrest =>
          obtain ⟨rest', rfl⟩ := ih (hblocks ▸ hrest)
          exact ⟨rest', by simp [Block.bytes]⟩
      | last => simp at hblocks
      | comment => simp at hblocks

/-! ## Files -/

/-- The bytes of a file without the byte order mark in front. -/
def unmarked : List UInt8 → List UInt8
  | 0xEF :: 0xBB :: 0xBF :: bs => bs
  | bs => bs

theorem exists_records_eq (bytes : List UInt8) :
    ∃ byte, records bytes = scan { here := ⟨0, 1, byte⟩ } (unmarked bytes) := by
  fun_cases unmarked bytes with
  | case1 bs => exact ⟨3, rfl⟩
  | case2 => exact ⟨0, by rw [records]; assumption⟩

/-- The records of a file are its rows, from the first line on. -/
theorem Layout.records_eq {blocks : List Block} {bytes : List UInt8}
    (h : Layout blocks (unmarked bytes)) :
    (records bytes).map (fun r ↦ (r.position.line, r.fields)) = located 1 blocks := by
  obtain ⟨byte, hrecords⟩ := exists_records_eq bytes
  rw [hrecords]
  exact h.scan_eq rfl

end LinkMonitor.Table
