import LinkMonitor.Output.Console
import Mathlib.Algebra.GroupWithZero.Nat
import Mathlib.Data.List.Basic

/-!
# Lines that can be told apart

What is printed is one text, and whoever reads it sees lines where there are line feeds.  These are
the lines that were printed as long as none of them holds a line feed (`IsLines`), and then the
lines can be got back from the text (`IsLines.unique`).
-/

namespace LinkMonitor.Output

/-- `IsLines s lines`: the text `s` is made up of `lines`, each of which ends with a line feed and
holds no other. -/
structure IsLines (s : String) (lines : List String) : Prop where
  eq_text : s = text lines
  lineFeed_notMem {line : String} : line ∈ lines → '\n' ∉ line.toList

variable {line : String} {lines lines' : List String}

theorem toList_text (lines : List String) :
    (text lines).toList = lines.flatMap fun line ↦ line.toList ++ ['\n'] := by
  simp [text, List.flatMap_map]

theorem toList_text_cons :
    (text (line :: lines)).toList = line.toList ++ '\n' :: (text lines).toList := by
  simp [toList_text]

/-- The parts into which line feeds cut a text are its lines, and behind the last line nothing. -/
theorem splitOn_text (h : ∀ line ∈ lines, '\n' ∉ line.toList) :
    (text lines).toList.splitOn '\n' = lines.map String.toList ++ [[]] := by
  induction lines with
  | nil => rfl
  | cons line lines ih =>
      obtain ⟨hline, hlines⟩ := List.forall_mem_cons.mp h
      have hsingle : line.toList.splitOnP (· == '\n') = [line.toList] :=
        List.splitOnP_eq_singleton fun c hc ↦ by
          rw [beq_eq_false_iff_ne]
          rintro rfl
          exact hline hc
      have hrest := ih hlines
      rw [List.splitOn] at hrest
      rw [toList_text_cons, List.splitOn, List.splitOnP_append_cons _ _ (by simp), hsingle, hrest]
      rfl

/-- A text has its lines in one way only. -/
theorem IsLines.unique {s : String} (h : IsLines s lines) (h' : IsLines s lines') :
    lines = lines' := by
  have hsplit := splitOn_text fun _ hl ↦ h.lineFeed_notMem hl
  rw [← h.eq_text, h'.eq_text, splitOn_text fun _ hl ↦ h'.lineFeed_notMem hl] at hsplit
  have hlines := List.append_cancel_right hsplit
  exact (List.map_injective_iff.mpr (fun _ _ ↦ String.toList_injective) hlines).symm

/-- There are as many line feeds as there are lines, and those that the lines hold besides. -/
theorem count_text (lines : List String) :
    (text lines).toList.count '\n' =
      lines.length + (lines.map fun line ↦ line.toList.count '\n').sum := by
  induction lines with
  | nil => rfl
  | cons line lines ih =>
      rw [toList_text_cons, List.count_append, List.count_cons_self, ih, List.length_cons,
        List.map_cons, List.sum_cons]
      omega

/-- There are as many line feeds as lines if the lines can be told apart, and not otherwise. -/
theorem count_text_eq_length_iff :
    (text lines).toList.count '\n' = lines.length ↔ IsLines (text lines) lines := by
  rw [count_text, Nat.add_eq_left, List.sum_eq_zero_iff_forall_eq_nat]
  constructor
  · intro h
    refine ⟨rfl, ?_⟩
    intro line hline
    exact List.count_eq_zero.mp (h _ (List.mem_map_of_mem hline))
  · intro h n hn
    obtain ⟨line, hline, rfl⟩ := List.mem_map.mp hn
    exact List.count_eq_zero.mpr (h.lineFeed_notMem hline)

/-- What is printed as output is one line for each event that is no note. -/
theorem out_printAll (o : Options) (stamp : String) (es : List Event) :
    (o.printAll stamp es).out = (es.filter (!·.isNote)).map (o.line stamp) := by
  induction es with
  | nil => rfl
  | cons e es ih =>
      have hcons : (o.printAll stamp (e :: es)).out =
          (o.print stamp e).out ++ (o.printAll stamp es).out := rfl
      rw [hcons, ih]
      cases he : e.isNote <;> simp [Options.print, he]

end LinkMonitor.Output
