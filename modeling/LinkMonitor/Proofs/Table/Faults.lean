import LinkMonitor.Proofs.Table.Places
import LinkMonitor.Proofs.Table.Reading
import Mathlib.Control.Monad.Basic

/-!
# The line of a fault

The line that is reported for a row is the one on which the row before ends, since the record has
that place.  It is the line of the row itself exactly if no line feed stands between the two
(`line_of_read_eq_error`).
-/

namespace LinkMonitor.Table

open LinkMonitor.Text

/-! ## Lines -/

/-- The line behind bytes, counted from one. -/
def lineAfter (bs : List UInt8) : Nat := 1 + bs.count lineFeed

theorem lineAfter_append (s t : List UInt8) :
    lineAfter (s ++ t) = lineAfter s + t.count lineFeed := by
  rw [lineAfter, List.count_append, ← Nat.add_assoc, lineAfter]

theorem lineAfter_eq_append_iff {s t : List UInt8} :
    lineAfter s = lineAfter (s ++ t) ↔ lineFeed ∉ t := by
  rw [lineAfter_append, ← List.count_eq_zero]
  omega

/-! ## Rows at fault -/

/-- `IsFirstFault bytes before b fault`: the rows `before` at the beginning of the file are read,
and the row `b` behind them is no format for the reason `fault`. -/
structure IsFirstFault (bytes : List UInt8) (before : List Block) (b : Block) (fault : RowFault) :
    Prop where
  stands : ∃ rest, unmarked bytes = before.flatMap Block.bytes ++ (b.gap ++ (b.row ++ rest))
  readBefore : ∃ fs, ofRecords ((records bytes).take before.length) = .ok fs
  isFault : ∃ row, b.fields = row.map utf8 ∧ ofRow row = .error fault

/-- **Faults are reported on the line on which the row before ends.**  Any bytes at all are laid out
as rows with gaps in front of them.  If a file is refused for a row, then this is the first row that
is no format, and the line that is reported is the one behind the rows before it.  The row itself is
on the line behind its gap.  This is the same line exactly if the gap has no line feed: no comment,
no empty line, and no second byte of a line end. -/
theorem line_of_read_eq_error (bytes : List UInt8) :
    (∃ blocks, Layout blocks (unmarked bytes)) ∧
      ∀ blocks line fault, Layout blocks (unmarked bytes) →
        read bytes = .error (.invalidRow line fault) →
        ∃ before b after, blocks = before ++ b :: after ∧ IsFirstFault bytes before b fault ∧
          line = lineAfter (before.flatMap Block.bytes) ∧
          (line = lineAfter (before.flatMap Block.bytes ++ b.gap) ↔ lineFeed ∉ b.gap) := by
  refine ⟨exists_layout _, ?_⟩
  intro blocks line fault hlayout hread
  obtain ⟨before', r, after', fs, hrecords, hbefore, hr⟩ := exists_of_ofRecords_eq_error hread
  obtain ⟨rfl, row, hrow, hfault⟩ := ofRecord_eq_invalidRow_iff.mp hr
  -- The rows of the layout are the records, each with the line that is its place.
  have hlocated := hlayout.records_eq
  rw [hrecords, List.map_append, List.map_cons] at hlocated
  obtain ⟨before, b, after, rfl, hlength, hplace⟩ := exists_of_located_eq_append hlocated.symm
  obtain ⟨hline, hfields⟩ := Prod.mk.inj hplace
  rw [List.length_map] at hlength
  have htake : (records bytes).take before.length = before' := by
    rw [hrecords, hlength, List.take_left]
  refine ⟨before, b, after, rfl, ⟨hlayout.exists_eq, ⟨fs, ?_⟩, row, ?_, hfault⟩, hline, ?_⟩
  · rw [htake, hbefore]
  · rw [← hfields, hrow]
  · rw [hline]
    exact lineAfter_eq_append_iff

/-- A comment, a row that a carriage return ends, the line feed behind it, an empty line, and a row
with a column out of range. -/
theorem line_of_read_eq_error_behind_gap :
    let speed : Block := ⟨utf8 "# catalog\n", utf8 "1,2,Speed,1,c", [carriageReturn],
      ["1", "2", "Speed", "1", "c"].map utf8⟩
    let ping : Block := ⟨utf8 "\n\r\n", utf8 "256,2,Ping,0", [lineFeed],
      ["256", "2", "Ping", "0"].map utf8⟩
    let bytes := utf8 "# catalog\n1,2,Speed,1,c\r\n\r\n256,2,Ping,0\n"
    let fault := RowFault.column "id_high" "256"
    (Layout [speed, ping] (unmarked bytes) ∧ read bytes = .error (.invalidRow 2 fault)) ∧
      IsFirstFault bytes [speed] ping fault ∧ 2 = lineAfter speed.bytes ∧
      2 ≠ lineAfter (speed.bytes ++ ping.gap) := by
  intro speed ping bytes fault
  have hfield (f : List UInt8) (h : (∀ b ∈ f, b ≠ comma ∧ endsRecord b = false) ∧
      f.head? ≠ some quote) : DenotesField f f := .bare h.1 h.2
  have hspeed : DenotesRow true speed.fields speed.row :=
    Eq.mp (congrArg (DenotesRow true speed.fields) (by decide +kernel))
      (.cons (hfield (utf8 "1") (by decide +kernel)) (.cons (hfield (utf8 "2") (by decide +kernel))
        (.cons (hfield (utf8 "Speed") (by decide +kernel))
          (.cons (hfield (utf8 "1") (by decide +kernel))
            (.last (hfield (utf8 "c") (by decide +kernel)))))))
  have hping : DenotesRow true ping.fields ping.row :=
    Eq.mp (congrArg (DenotesRow true ping.fields) (by decide +kernel))
      (.cons (hfield (utf8 "256") (by decide +kernel))
        (.cons (hfield (utf8 "2") (by decide +kernel))
          (.cons (hfield (utf8 "Ping") (by decide +kernel))
            (.last (hfield (utf8 "0") (by decide +kernel))))))
  have hcomment : IsGap speed.gap := by
    have hnote : lineFeed ∉ utf8 " catalog" := by decide +kernel
    exact Eq.mp (congrArg IsGap (by decide +kernel)) (IsGap.comment hnote .nil)
  have hempty : IsGap ping.gap :=
    Eq.mp (congrArg IsGap (by decide +kernel))
      (IsGap.lineEnd (b := lineFeed) rfl (.lineEnd (b := carriageReturn) rfl
        (.lineEnd (b := lineFeed) rfl .nil)))
  have hlayout : Layout [speed, ping] (unmarked bytes) :=
    Eq.mp (congrArg (Layout [speed, ping]) (by decide +kernel))
      (.cons hcomment ⟨_, _, rfl, by decide +kernel⟩ hspeed rfl
        (.cons hempty ⟨_, _, rfl, by decide +kernel⟩ hping rfl (.nil .nil)))
  have hread : read bytes = .error (.invalidRow 2 fault) := by decide +kernel
  obtain ⟨before, b, after, hblocks, hfault, hline, hiff⟩ :=
    (line_of_read_eq_error bytes).2 _ 2 fault hlayout hread
  refine ⟨⟨hlayout, hread⟩, ?_⟩
  cases before with
  | nil => exact absurd hline (by decide)
  | cons c before =>
      obtain ⟨rfl, htail⟩ := List.cons.inj hblocks
      cases before with
      | nil =>
          obtain ⟨rfl, -⟩ := List.cons.inj htail
          rw [List.flatMap_singleton] at hline hiff
          exact ⟨hfault, hline, fun h ↦ hiff.mp h (by decide +kernel)⟩
      | cons d before => simp at htail

/-- Below a comment, and behind a line end of two bytes, the line before that of the row is
reported. -/
theorem read_reports_line_before :
    let comment := "# catalog\n"
    let below := "256,2,Speed,1,c\n"
    let first := "1,2,Speed,1,c\r\n"
    let second := "256,2,Ping,0\r\n"
    let fault := RowFault.column "id_high" "256"
    (IsGap (utf8 comment) ∧ BeginsRow (utf8 below) ∧ lineAfter (utf8 comment) = 2 ∧
      read (utf8 (comment ++ below)) = .error (.invalidRow 1 fault)) ∧
    BeginsRow (utf8 second) ∧ lineAfter (utf8 first) = 2 ∧
      read (utf8 (first ++ second)) = .error (.invalidRow 1 fault) := by
  intro comment below first second fault
  have hnote : lineFeed ∉ utf8 " catalog" := by decide +kernel
  have hcomment : IsGap (utf8 comment) :=
    Eq.mp (congrArg IsGap (by decide +kernel)) (IsGap.comment hnote .nil)
  refine ⟨⟨hcomment, ⟨_, _, rfl, by decide +kernel⟩, by decide +kernel, by decide +kernel⟩, ?_⟩
  exact ⟨⟨_, _, rfl, by decide +kernel⟩, by decide +kernel, by decide +kernel⟩

end LinkMonitor.Table
