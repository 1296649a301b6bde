import LinkMonitor.Files.Tree
import LinkMonitor.Proofs.Text.Words
import Mathlib.Data.List.TakeWhile

/-!
# Following paths

A path is a text, and the directories above what it names are told from the text alone
(`Path.above`).  A tree is asked about both, and the answers have to fit: if a path leads to a file,
then the nearest directory above it is a directory of the tree (`isDirectory_of_find_eq_file`).

The text of a directory is put together from parts that have been read off another text, without
parts that lead nowhere.  So there are two things to show: that such a text is read as the same
parts again (`pieces_spell`), and that parts which lead nowhere can be left out when a path is
followed (`follow_significant`).
-/

namespace LinkMonitor

/-! ## Texts -/

namespace Path

variable {cs p : List Char} {ps : List (List Char)} {path : String} {absolute : Bool}

/-- The parts of a path hold characters of the path, but no slash. -/
theorem mem_of_mem_parts (hp : p ∈ parts cs) {c : Char} (hc : c ∈ p) : c ∈ cs ∧ c ≠ '/' := by
  induction cs generalizing p with
  | nil =>
      obtain rfl : p = [] := by simpa [parts] using hp
      simp at hc
  | cons x cs ih =>
      rw [parts, List.splitOn_cons_eq_if_modifyHead] at hp
      by_cases hx : x = '/'
      · simp only [hx, beq_self_eq_true, if_true, List.mem_cons] at hp
        rcases hp with rfl | hp
        · simp at hc
        · exact ⟨List.mem_cons_of_mem _ (ih hp hc).1, (ih hp hc).2⟩
      · obtain ⟨q, qs, hqs⟩ := List.exists_cons_of_ne_nil (List.splitOn_ne_nil '/' cs)
        simp only [beq_iff_eq, if_neg hx, hqs, List.modifyHead_cons, List.mem_cons] at hp
        rcases hp with rfl | hp
        · rcases List.mem_cons.mp hc with rfl | hc
          · exact ⟨List.mem_cons_self .., hx⟩
          · have := ih (p := q) (by simp [parts, hqs]) hc
            exact ⟨List.mem_cons_of_mem _ this.1, this.2⟩
        · have := ih (p := p) (by simp [parts, hqs, hp]) hc
          exact ⟨List.mem_cons_of_mem _ this.1, this.2⟩

theorem slash_notMem_of_mem_parts (hp : p ∈ parts cs) : '/' ∉ p :=
  fun h ↦ (mem_of_mem_parts hp h).2 rfl

theorem parts_unparts (hps : ∀ p ∈ ps, '/' ∉ p) (hne : ps ≠ []) : parts (unparts ps) = ps :=
  List.splitOn_intercalate '/' hps hne

@[simp] theorem unparts_parts (cs : List Char) : unparts (parts cs) = cs :=
  List.intercalate_splitOn '/'

theorem parts_ne_nil (cs : List Char) : parts cs ≠ [] := List.splitOn_ne_nil '/' cs

theorem unparts_append_nil (hne : ps ≠ []) : unparts (ps ++ [[]]) = unparts ps ++ ['/'] := by
  induction ps with
  | nil => contradiction
  | cons p ps ih =>
      cases ps with
      | nil => simp [unparts, List.intercalate_cons_cons]
      | cons q ps =>
          have := ih (by simp)
          simp only [unparts, List.cons_append, List.intercalate_cons_cons] at this ⊢
          simp [this]

/-- A path ends in a slash if its last part is empty. -/
theorem getLast?_eq_slash_iff (hne : cs ≠ []) :
    cs.getLast? = some '/' ↔ (parts cs).getLast? = some [] := by
  constructor
  · intro h
    obtain ⟨xs, rfl⟩ := List.getLast?_eq_some_iff.mp h
    rw [parts, List.splitOn_append_cons_self]
    simp
  · intro h
    obtain ⟨init, hinit⟩ := List.getLast?_eq_some_iff.mp h
    have hcs : cs = unparts (init ++ [[]]) := by rw [← hinit, unparts_parts]
    have hinit : init ≠ [] := by
      rintro rfl
      exact hne hcs
    rw [hcs, unparts_append_nil hinit, List.getLast?_concat]

/-! ### Parts behind the root -/

/-- The parts of a path behind the root, if it begins there. -/
def pieces (path : String) : List (List Char) :=
  if isAbsolute path.toList then (parts path.toList).tail else parts path.toList

/-- The text of a path with given pieces. -/
def spell (absolute : Bool) (ps : List (List Char)) : String :=
  .ofList (if absolute then '/' :: unparts ps else unparts ps)

theorem isAbsolute_iff : isAbsolute cs = true ↔ ∃ rest, cs = '/' :: rest := by
  unfold isAbsolute
  split <;> simp_all

theorem parts_slash_cons (cs : List Char) : parts ('/' :: cs) = [] :: parts cs := by
  simp [parts, List.splitOn_cons_eq_if_modifyHead]

/-- Behind the root, an absolute path begins with an empty part. -/
theorem parts_of_isAbsolute (h : isAbsolute path.toList = true) :
    parts path.toList = [] :: pieces path := by
  obtain ⟨rest, hrest⟩ := isAbsolute_iff.mp h
  simp [pieces, hrest, isAbsolute, parts_slash_cons]

theorem parts_of_not_isAbsolute (h : isAbsolute path.toList = false) :
    parts path.toList = pieces path := by
  simp [pieces, h]

theorem pieces_ne_nil (path : String) : pieces path ≠ [] := by
  cases h : isAbsolute path.toList with
  | true =>
      obtain ⟨rest, hrest⟩ := isAbsolute_iff.mp h
      simp [pieces, hrest, isAbsolute, parts_slash_cons, parts_ne_nil]
  | false =>
      rw [← parts_of_not_isAbsolute h]
      exact parts_ne_nil _

theorem mem_parts_of_mem_pieces (hp : p ∈ pieces path) : p ∈ parts path.toList := by
  cases h : isAbsolute path.toList with
  | true =>
      rw [parts_of_isAbsolute h]
      exact List.mem_cons_of_mem _ hp
  | false => rwa [parts_of_not_isAbsolute h]

/-- Only the first piece of a path can tell that it begins at the root. -/
theorem isAbsolute_unparts (hps : ∀ p ∈ ps, '/' ∉ p) (hhead : ps.head? ≠ some []) :
    isAbsolute (unparts ps) = false := by
  cases h : isAbsolute (unparts ps) with
  | false => rfl
  | true =>
      obtain ⟨rest, hrest⟩ := isAbsolute_iff.mp h
      cases ps with
      | nil => simp [unparts, List.intercalate] at hrest
      | cons p ps =>
          have hparts := parts_unparts hps (by simp)
          rw [hrest, parts_slash_cons] at hparts
          simp [← (List.cons.inj hparts).1] at hhead

/-- A text that is put together from pieces has these pieces. -/
theorem pieces_spell (hps : ∀ p ∈ ps, '/' ∉ p) (hne : ps ≠ [])
    (hhead : absolute = false → ps.head? ≠ some []) :
    isAbsolute (spell absolute ps).toList = absolute ∧ pieces (spell absolute ps) = ps := by
  cases absolute with
  | true => simp [spell, pieces, isAbsolute, parts_slash_cons, parts_unparts hps hne]
  | false =>
      have := isAbsolute_unparts hps (hhead rfl)
      simp [spell, pieces, this, parts_unparts hps hne]

/-! ### Directories above -/

theorem significant_suffix (absolute : Bool) (ps : List (List Char)) :
    significant absolute ps <:+ ps := by
  induction ps with
  | nil => exact List.suffix_rfl
  | cons p ps ih =>
      rw [significant]
      split
      · exact ih.trans (List.suffix_cons p ps)
      · exact List.suffix_rfl

theorem upward_of_nil (h : significant absolute ps = []) : upward absolute ps = [] := by
  rw [upward]
  split
  · rfl
  · simp_all

theorem upward_of_cons {rest : List (List Char)} (h : significant absolute ps = p :: rest) :
    upward absolute ps = spell absolute (p :: rest).reverse :: upward absolute rest := by
  rw [upward]
  split
  · simp_all
  · rename_i hq
    obtain ⟨rfl, rfl⟩ := List.cons.inj (hq.symm.trans h)
    rfl

theorem above_eq_tail_upward (path : String) :
    above path = (upward (isAbsolute path.toList) (pieces path).reverse).tail := by
  cases h : isAbsolute path.toList with
  | true => simp [above, pieces, h]
  | false => simp [above, pieces, h]

/-- Only the empty path begins with an empty part without being absolute. -/
theorem head?_pieces_ne (hne : path.toList ≠ []) (h : isAbsolute path.toList = false) :
    (pieces path).head? ≠ some [] := by
  rw [← parts_of_not_isAbsolute h]
  cases hcs : path.toList with
  | nil => exact absurd hcs hne
  | cons c cs =>
      have hc : c ≠ '/' := by
        rintro rfl
        simp [hcs, isAbsolute] at h
      obtain ⟨q, qs, hqs⟩ := List.exists_cons_of_ne_nil (List.splitOn_ne_nil '/' cs)
      simp [parts, List.splitOn_cons_eq_if_modifyHead, hc, hqs]

theorem mem_unparts {c : Char} (hc : c ∈ unparts ps) : c = '/' ∨ ∃ p ∈ ps, c ∈ p :=
  Text.mem_of_mem_intercalate hc

/-- A text that is spelled from the first pieces of a path starts where the path does, and has no
other characters. -/
theorem spell_of_prefix (hne : path ≠ "") (hpieces : ps <+: pieces path) (hps : ps ≠ []) :
    let d := spell (isAbsolute path.toList) ps
    isAbsolute d.toList = isAbsolute path.toList ∧ pieces d = ps ∧ d ≠ "" ∧
      ∀ c ∈ d.toList, c ≠ '/' → c ∈ path.toList := by
  intro d
  have hmem {p : List Char} (hp : p ∈ ps) : p ∈ parts path.toList :=
    mem_parts_of_mem_pieces (hpieces.subset hp)
  have hhead (h : isAbsolute path.toList = false) : ps.head? ≠ some [] := by
    obtain ⟨p, qs, rfl⟩ := List.exists_cons_of_ne_nil hps
    obtain ⟨rest, hrest⟩ := hpieces
    simpa [← hrest] using head?_pieces_ne (by simpa using hne) h
  obtain ⟨habs, hd⟩ := pieces_spell (fun p hp ↦ slash_notMem_of_mem_parts (hmem hp)) hps hhead
  refine ⟨habs, hd, ?_, fun c hc hslash ↦ ?_⟩
  · intro hempty
    have hfalse : isAbsolute path.toList = false := by
      rw [← habs, show spell (isAbsolute path.toList) ps = "" from hempty]
      rfl
    refine hhead hfalse ?_
    rw [← hd, show spell (isAbsolute path.toList) ps = "" from hempty]
    rfl
  · have hc : c ∈ unparts ps := by
      simp only [d, spell, String.toList_ofList] at hc
      split at hc
      · exact (List.mem_cons.mp hc).resolve_left hslash
      · exact hc
    obtain ⟨p, hp, hc⟩ := (mem_unparts hc).resolve_left hslash
    exact (mem_of_mem_parts (hmem hp) hc).1

end Path

/-! ## Trees -/

/-- A result that comes of two steps comes of each of them. -/
theorem bind_eq_ok_iff {ε α β : Type} {x : Except ε α} {f : α → Except ε β} {b : β} :
    x >>= f = .ok b ↔ ∃ a, x = .ok a ∧ f a = .ok b := by
  cases x <;> simp [bind, Except.bind]

namespace FileTree

variable {t : FileTree} {path : String} {p q : Place} {part : List Char}
  {xs ys : List (List Char)} {e : Entry}

/-! ### Following parts -/

/-- Only directories can be entered. -/
theorem entryAt?_of_enter (h : t.enter p part = .ok q) : t.entryAt? p = some .directory := by
  unfold enter at h
  split at h
  · contradiction
  · contradiction
  · assumption

theorem eq_of_enter (h : t.enter p part = .ok q) (hpart : part = [] ∨ part = ['.']) : q = p := by
  rw [enter, entryAt?_of_enter h, if_pos hpart] at h
  exact (Except.ok.inj h).symm

theorem enter_of_directory (h : t.entryAt? p = some .directory) (hpart : part = [] ∨ part = ['.']) :
    t.enter p part = .ok p := by
  rw [enter, h, if_pos hpart]

@[simp] theorem follow_nil (t : FileTree) (p : Place) : t.follow p [] = .ok p := rfl

theorem follow_cons_eq_ok_iff :
    t.follow p (part :: xs) = .ok q ↔ ∃ r, t.enter p part = .ok r ∧ t.follow r xs = .ok q := by
  simp only [follow, List.foldlM_cons, bind_eq_ok_iff]

theorem follow_append_eq_ok_iff :
    t.follow p (xs ++ ys) = .ok q ↔ ∃ r, t.follow p xs = .ok r ∧ t.follow r ys = .ok q := by
  simp only [follow, List.foldlM_append, bind_eq_ok_iff]

theorem follow_concat_eq_ok_iff :
    t.follow p (xs ++ [part]) = .ok q ↔ ∃ r, t.follow p xs = .ok r ∧ t.enter r part = .ok q := by
  simp [follow_append_eq_ok_iff, follow_cons_eq_ok_iff]

/-- Empty parts lead nowhere. -/
theorem follow_empty (h : t.entryAt? p = some .directory) (hxs : ∀ x ∈ xs, x = []) :
    t.follow p xs = .ok p := by
  induction xs with
  | nil => rfl
  | cons x xs ih =>
      have hx : x = [] ∨ x = ['.'] := .inl (hxs x (by simp))
      exact follow_cons_eq_ok_iff.mpr
        ⟨p, enter_of_directory h hx, ih fun y hy ↦ hxs y (List.mem_cons_of_mem _ hy)⟩

theorem eq_of_follow_empty (h : t.follow p xs = .ok q) (hxs : ∀ x ∈ xs, x = []) : q = p := by
  induction xs generalizing p with
  | nil => exact (Except.ok.inj h).symm
  | cons x xs ih =>
      obtain ⟨r, hr, hrest⟩ := follow_cons_eq_ok_iff.mp h
      rw [eq_of_enter hr (.inl (hxs x (by simp)))] at hrest
      exact ih hrest fun y hy ↦ hxs y (List.mem_cons_of_mem _ hy)

/-- Parts at the end that lead nowhere can be left out. -/
theorem follow_significant {absolute : Bool} (h : t.follow p xs.reverse = .ok q) :
    t.follow p (Path.significant absolute xs).reverse = .ok q := by
  induction xs generalizing q with
  | nil => exact h
  | cons x xs ih =>
      rw [Path.significant]
      split
      · rename_i hx
        rw [List.reverse_cons] at h
        obtain ⟨r, hr, h⟩ := follow_concat_eq_ok_iff.mp h
        rw [eq_of_enter h (hx.imp_right And.left)]
        exact ih hr
      · exact h

/-! ### Following paths -/

theorem checked_bind_eq_ok_iff {α : Type} {f : String → Except FileError α} {a : α} :
    (checked path).bind f = .ok a ↔ ('\x00' ∉ path.toList ∧ path ≠ "") ∧ f path = .ok a := by
  by_cases hnul : '\x00' ∈ path.toList
  · simp [checked, hnul, Except.bind]
  · by_cases hempty : path = ""
    · simp [checked, hempty, Except.bind]
    · simp [checked, hnul, hempty, Except.bind]

theorem locate_eq_ok_iff :
    t.locate path = .ok p ↔ ('\x00' ∉ path.toList ∧ path ≠ "") ∧
      t.follow (t.origin path) (Path.parts path.toList) = .ok p :=
  checked_bind_eq_ok_iff

theorem target_eq_ok_iff :
    t.target path = .ok p ↔ ('\x00' ∉ path.toList ∧ path ≠ "") ∧
      t.follow (t.origin path) ((Path.parts path.toList).reverse.dropWhile List.isEmpty).reverse =
        .ok p :=
  checked_bind_eq_ok_iff

/-- The root is a directory, so that only the pieces of a path matter. -/
theorem locate_eq_ok_iff_pieces :
    t.locate path = .ok p ↔ ('\x00' ∉ path.toList ∧ path ≠ "") ∧
      t.follow (t.origin path) (Path.pieces path) = .ok p := by
  rw [locate_eq_ok_iff]
  cases h : Path.isAbsolute path.toList with
  | true =>
      have hroot : t.enter [] [] = .ok [] := enter_of_directory rfl (.inl rfl)
      simp only [Path.parts_of_isAbsolute h, origin, h, if_true, follow_cons_eq_ok_iff, hroot,
        Except.ok.injEq, exists_eq_left']
  | false => rw [Path.parts_of_not_isAbsolute h]

theorem find_eq_ok_iff :
    t.find path = .ok (p, e) ↔ t.locate path = .ok p ∧ t.entryAt? p = some e := by
  unfold find
  cases hp : t.locate path with
  | error _ => simp [Except.bind]
  | ok q =>
      cases he : t.entryAt? q with
      | none => simp only [Except.bind, he]; grind
      | some e' => simp only [Except.bind, he]; grind

theorem exists_trailing (ps : List (List Char)) :
    ∃ rest, ps = (ps.reverse.dropWhile List.isEmpty).reverse ++ rest ∧ ∀ x ∈ rest, x = [] := by
  refine ⟨(ps.reverse.takeWhile List.isEmpty).reverse, ?_, fun x hx ↦ ?_⟩
  · rw [← List.reverse_append, List.takeWhile_append_dropWhile, List.reverse_reverse]
  · simpa using List.mem_takeWhile_imp (List.mem_reverse.mp hx)

/-- What a path names comes to stand where the path leads. -/
theorem target_of_locate (h : t.locate path = .ok p) : t.target path = .ok p := by
  obtain ⟨hpath, h⟩ := locate_eq_ok_iff.mp h
  obtain ⟨rest, hparts, hrest⟩ := exists_trailing (Path.parts path.toList)
  rw [hparts] at h
  obtain ⟨q, hq, h⟩ := follow_append_eq_ok_iff.mp h
  rw [eq_of_follow_empty h hrest]
  exact target_eq_ok_iff.mpr ⟨hpath, hq⟩

/-- Slashes at the end of a path lead on from directories only. -/
theorem locate_of_target (h : t.target path = .ok p)
    (hp : t.entryAt? p = some .directory ∨ path.toList.getLast? ≠ some '/') :
    t.locate path = .ok p := by
  obtain ⟨hpath, h⟩ := target_eq_ok_iff.mp h
  refine locate_eq_ok_iff.mpr ⟨hpath, ?_⟩
  rcases hp with hp | hp
  · obtain ⟨rest, hparts, hrest⟩ := exists_trailing (Path.parts path.toList)
    rw [hparts]
    exact follow_append_eq_ok_iff.mpr ⟨p, h, follow_empty hp hrest⟩
  · rw [ne_eq, Path.getLast?_eq_slash_iff (by simpa using hpath.2), ← List.head?_reverse] at hp
    cases hparts : (Path.parts path.toList).reverse with
    | nil => exact absurd (List.reverse_eq_nil_iff.mp hparts) (Path.parts_ne_nil _)
    | cons x xs =>
        have hx : x.isEmpty = false := by
          cases x with
          | nil => exact absurd (by rw [hparts]; rfl) hp
          | cons => rfl
        rwa [hparts, List.dropWhile_cons_of_neg (by simp [hx]), ← hparts, List.reverse_reverse] at h

/-! ### Above a file -/

variable {bytes : List UInt8}

/-- The last piece of a path to a file is the name of the file, in a directory. -/
theorem exists_directory_of_file (h : t.find path = .ok (p, .file bytes)) :
    ∃ init name q, Path.pieces path = init ++ [name] ∧ name ≠ [] ∧ name ≠ ['.'] ∧
      t.follow (t.origin path) init = .ok q ∧ t.entryAt? q = some .directory := by
  obtain ⟨hp, hfile⟩ := find_eq_ok_iff.mp h
  obtain ⟨init, name, hpieces⟩ : ∃ init name, Path.pieces path = init ++ [name] :=
    ⟨_, _, (List.dropLast_concat_getLast (Path.pieces_ne_nil path)).symm⟩
  obtain ⟨-, hp⟩ := locate_eq_ok_iff_pieces.mp hp
  rw [hpieces] at hp
  obtain ⟨q, hq, hp⟩ := follow_concat_eq_ok_iff.mp hp
  have hdir := entryAt?_of_enter hp
  have hname : ¬ (name = [] ∨ name = ['.']) := by
    intro hname
    rw [eq_of_enter hp hname, hdir] at hfile
    simp at hfile
  rw [not_or] at hname
  exact ⟨init, name, q, hpieces, hname.1, hname.2, hq, hdir⟩

/-- A path to a file does not end in a slash. -/
theorem getLast?_ne_slash_of_file (h : t.find path = .ok (p, .file bytes)) :
    path.toList.getLast? ≠ some '/' := by
  obtain ⟨init, name, -, hpieces, hname, -⟩ := exists_directory_of_file h
  have hpath := (locate_eq_ok_iff.mp (find_eq_ok_iff.mp h).1).1.2
  rw [ne_eq, Path.getLast?_eq_slash_iff (by simpa using hpath)]
  cases habs : Path.isAbsolute path.toList with
  | true =>
      rw [Path.parts_of_isAbsolute habs, hpieces, ← List.cons_append, List.getLast?_concat]
      simpa using hname
  | false => simpa [Path.parts_of_not_isAbsolute habs, hpieces] using hname

/-- The nearest directory above a file is there. -/
theorem isDirectory_of_find_eq_file (h : t.find path = .ok (p, .file bytes)) {d : String}
    {above : List String} (hd : Path.above path = d :: above) : t.isDirectory d = true := by
  obtain ⟨init, name, q, hpieces, hname, hpoint, hq, hdir⟩ := exists_directory_of_file h
  obtain ⟨hnul, hne⟩ := (locate_eq_ok_iff.mp (find_eq_ok_iff.mp h).1).1
  -- The name is significant, so that the path of the directory is spelled from the pieces before.
  have hsig : Path.significant (Path.isAbsolute path.toList) (name :: init.reverse) =
      name :: init.reverse := by
    rw [Path.significant, if_neg (by simp [hname, hpoint])]
  rw [Path.above_eq_tail_upward, hpieces, List.reverse_append, List.reverse_singleton,
    List.singleton_append, Path.upward_of_cons hsig, List.tail_cons] at hd
  cases hinit : Path.significant (Path.isAbsolute path.toList) init.reverse with
  | nil => simp [Path.upward_of_nil hinit] at hd
  | cons x xs =>
      rw [Path.upward_of_cons hinit] at hd
      obtain ⟨rfl, -⟩ := List.cons.inj hd
      have hprefix : (x :: xs).reverse <+: Path.pieces path := by
        have hsuffix := Path.significant_suffix (Path.isAbsolute path.toList) init.reverse
        rw [hinit, ← List.reverse_prefix, List.reverse_reverse] at hsuffix
        exact hsuffix.trans ⟨[name], hpieces.symm⟩
      obtain ⟨habs, hps, hempty, hmem⟩ := Path.spell_of_prefix hne hprefix (by simp)
      have hfollow : t.follow (t.origin path) (x :: xs).reverse = .ok q := by
        rw [← hinit]
        exact follow_significant (by rwa [List.reverse_reverse])
      have hlocate : t.locate (Path.spell (Path.isAbsolute path.toList) (x :: xs).reverse) =
          .ok q := by
        refine locate_eq_ok_iff_pieces.mpr ⟨⟨fun hc ↦ hnul (hmem _ hc (by decide)), hempty⟩, ?_⟩
        rw [hps, origin, habs]
        exact hfollow
      rw [isDirectory, find_eq_ok_iff.mpr ⟨hlocate, hdir⟩]

end FileTree

end LinkMonitor
