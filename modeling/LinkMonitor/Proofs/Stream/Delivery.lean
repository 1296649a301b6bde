import LinkMonitor.Proofs.Arithmetic
import LinkMonitor.Proofs.Trace
import LinkMonitor.Stream.Source
import Mathlib.Data.List.TakeDrop

/-!
# A replay delivers every byte once

A replay is opened, closed and read in any order, with buffers of any size and contents.  It has at
any time delivered what stands before its position in the capture, and has left what stands behind
it (`Plays`): opening, closing and reads that fail do not move it, and a read moves it by what it
delivers.
-/

namespace LinkMonitor

namespace Replay

/-- What can be done with a replay. -/
inductive Operation where
  | resume
  | close
  | read {room : Nat} (buffer : Vector UInt8 room)

/-- What an operation gives back. -/
inductive Operation.Reply where
  | done
  | read {room : Nat} (buffer : Vector UInt8 room) (result : Except SourceError (Fin (room + 1)))

/-- Carries out an operation. -/
def operate (s : Replay) : Operation → Replay × Operation.Reply
  | .resume => (s.resume, .done)
  | .close => (s.close, .done)
  | .read buffer =>
    let (s, buffer, result) := s.read buffer
    (s, .read buffer result)

/-- An operation at some point of a run. -/
abbrev OperationStep : Type := Step Replay Operation Operation.Reply

/-- The steps of operations in a row. -/
def history (s : Replay) (os : List Operation) : List OperationStep := trace operate s os

/-- The replay after operations in a row. -/
def operateAll (s : Replay) (os : List Operation) : Replay := stateAfter operate s os

/-- The bytes that a step has delivered: those that a read says it has written. -/
def OperationStep.delivered (t : OperationStep) : List UInt8 :=
  match t.reply with
  | .read buffer (.ok count) => buffer.toList.take count
  | _ => []

variable {capture : List UInt8} {chunkSize room : Nat} {s : Replay}

/-! ## Reads -/

/-- The number of bytes that a read delivers if the replay is open. -/
def count (s : Replay) (room : Nat) : Nat := min room s.available

theorem count_lt (s : Replay) (room : Nat) : s.count room < room + 1 :=
  Nat.lt_succ_of_le (Nat.min_le_left ..)

/-- The bytes that a read delivers if the replay is open. -/
def next (s : Replay) (room : Nat) : List UInt8 := s.unread.take (s.count room)

/-- The replay behind the bytes that a read delivers. -/
def advance (s : Replay) (room : Nat) : Replay :=
  { s with position := s.position + s.count room }

theorem length_next (s : Replay) (room : Nat) : (s.next room).length = s.count room :=
  List.length_take_of_le (Nat.le_trans (Nat.min_le_right ..) s.available_le_length)

theorem next_append_unread (s : Replay) (room : Nat) :
    s.next room ++ (s.advance room).unread = s.unread := by
  have hrest : (s.advance room).unread = s.unread.drop (s.count room) := by
    simp only [unread, advance, List.drop_drop]
  rw [hrest, next, List.take_append_drop]

theorem operate_read_of_isOpen (ho : s.isOpen = true) (buffer : Vector UInt8 room) :
    s.operate (.read buffer) =
      (s.advance room,
        .read (overwrite buffer (s.next room)) (.ok ⟨s.count room, s.count_lt room⟩)) := by
  simp [operate, read, advance, next, count, ho]

theorem operate_read_of_not_isOpen (hc : s.isOpen = false) (buffer : Vector UInt8 room) :
    s.operate (.read buffer) = (s, .read buffer (.error .closed)) := by
  simp [operate, read, hc]

/-- What is delivered stands in front of what was in the buffer there before. -/
theorem toList_overwrite_next (s : Replay) (buffer : Vector UInt8 room) :
    (overwrite buffer (s.next room)).toList = s.next room ++ buffer.toList.drop (s.count room) := by
  have hlength := s.length_next room
  rw [toList_overwrite (hlength ▸ Nat.le_of_lt_succ (s.count_lt room)), hlength]

theorem delivered_of_isOpen (ho : s.isOpen = true) (buffer : Vector UInt8 room) :
    OperationStep.delivered ⟨s, .read buffer, (s.operate (.read buffer)).2,
      (s.operate (.read buffer)).1⟩ = s.next room := by
  rw [operate_read_of_isOpen ho]
  change (overwrite buffer (s.next room)).toList.take (s.count room) = s.next room
  rw [toList_overwrite_next, ← length_next, List.take_left]

/-! ## Places in a capture -/

/-- The replay hands over a capture in chunks of a size, and has come to a position in it. -/
structure Plays (s : Replay) (capture : List UInt8) (chunkSize : Nat) : Prop where
  chunkSize_eq : s.chunkSize = chunkSize
  data_eq : s.data = capture
  position_le : s.position ≤ capture.length

theorem start_eq (capture : List UInt8) (h : 0 < chunkSize) :
    start capture chunkSize = .ok ⟨capture, 0, chunkSize, true, h⟩ := dif_pos h

namespace Plays

theorem unread_eq (h : s.Plays capture chunkSize) : s.unread = capture.drop s.position := by
  rw [unread, h.data_eq]

theorem available_eq (h : s.Plays capture chunkSize) :
    s.available =
      if s.isOpen then min chunkSize (capture.length - s.position) else 0 := by
  rw [available, h.data_eq, h.chunkSize_eq, Nat.min_comm]

theorem count_eq (h : s.Plays capture chunkSize) (ho : s.isOpen = true) (room : Nat) :
    s.count room = min room (min chunkSize (capture.length - s.position)) := by
  rw [count, h.available_eq, if_pos ho]

/-- A replay is exhausted when nothing is left of the capture. -/
theorem isExhausted_iff (h : s.Plays capture chunkSize) :
    s.isExhausted = true ↔ s.position = capture.length := by
  have hle := h.position_le
  rw [isExhausted, h.data_eq, decide_eq_true_eq]
  omega

/-- The bytes that are left can be counted by subtracting the position. -/
theorem left?_eq (h : s.Plays capture chunkSize) :
    Arithmetic.left? s.data s.position = some (capture.length - s.position) := by
  rw [h.data_eq]
  exact if_pos h.position_le

theorem isAt (h : s.Plays capture chunkSize) : Arithmetic.IsAt capture s.position s.unread :=
  ⟨h.position_le, h.unread_eq.symm⟩

theorem advance (h : s.Plays capture chunkSize) (ho : s.isOpen = true) (room : Nat) :
    (s.advance room).Plays capture chunkSize where
  chunkSize_eq := h.chunkSize_eq
  data_eq := h.data_eq
  position_le := by
    have hle := h.position_le
    simp only [Replay.advance, h.count_eq ho]
    omega

/-- Whatever is done with a replay, it keeps its place in the capture. -/
theorem operate (h : s.Plays capture chunkSize) (o : Operation) :
    (s.operate o).1.Plays capture chunkSize := by
  cases o with
  | resume => exact ⟨h.chunkSize_eq, h.data_eq, h.position_le⟩
  | close => exact ⟨h.chunkSize_eq, h.data_eq, h.position_le⟩
  | @read room buffer =>
      cases ho : s.isOpen with
      | true => rw [operate_read_of_isOpen ho]; exact h.advance ho room
      | false => rw [operate_read_of_not_isOpen ho]; exact h

end Plays

/-! ## Steps -/

/-- What every step keeps to. -/
structure OperationStep.Lawful (capture : List UInt8) (chunkSize : Nat) (t : OperationStep) :
    Prop where
  /-- A read of an open replay delivers the next bytes: as many as there is room for, but no more
  than a chunk and than what is left.  They stand between two positions of the capture, and nothing
  else is written to the buffer. -/
  read_of_isOpen {room : Nat} {buffer : Vector UInt8 room} : t.action = .read buffer →
    t.before.isOpen = true →
    ∃ (filled : Vector UInt8 room) (count : Fin (room + 1)), t.reply = .read filled (.ok count) ∧
      filled.toList = t.delivered ++ buffer.toList.drop count ∧ t.delivered.length = count ∧
      count = min room (min chunkSize (capture.length - t.before.position)) ∧
      Arithmetic.slice? capture t.before.position t.after.position = some t.delivered ∧
      t.after = { t.before with position := t.before.position + count } ∧
      (0 < room → t.before.isExhausted = false → t.delivered ≠ [])
  /-- A read of a closed replay fails. -/
  read_of_not_isOpen {room : Nat} {buffer : Vector UInt8 room} : t.action = .read buffer →
    t.before.isOpen = false → t.reply = .read buffer (.error .closed) ∧ t.after = t.before
  /-- Opening moves nothing. -/
  resume : t.action = .resume → t.after = { t.before with isOpen := true }
  /-- Closing moves nothing. -/
  close : t.action = .close → t.after = { t.before with isOpen := false }

theorem lawful_of_plays (h : s.Plays capture chunkSize) (o : Operation) :
    OperationStep.Lawful capture chunkSize ⟨s, o, (s.operate o).2, (s.operate o).1⟩ where
  read_of_isOpen := by
    rintro room buffer rfl ho
    rw [delivered_of_isOpen ho, operate_read_of_isOpen ho]
    refine ⟨_, _, rfl, s.toList_overwrite_next buffer, s.length_next room, h.count_eq ho room,
      ?_, rfl, ?_⟩
    · have hat := h.isAt
      rw [← s.next_append_unread room] at hat
      exact hat.slice?_eq (h.advance ho room).isAt
    · intro hroom hx hnil
      have hpos : 0 < s.count room := by
        have hc := s.chunkSize_pos
        have hleft : s.position ≠ capture.length := by
          rw [ne_eq, ← h.isExhausted_iff, hx]
          exact Bool.false_ne_true
        have hle := h.position_le
        rw [h.count_eq ho, ← h.chunkSize_eq]
        omega
      rw [← s.length_next, hnil] at hpos
      exact Nat.lt_irrefl 0 hpos
  read_of_not_isOpen := by
    rintro room buffer rfl hc
    rw [operate_read_of_not_isOpen hc]
    exact ⟨rfl, rfl⟩
  resume := by
    rintro rfl
    rfl
  close := by
    rintro rfl
    rfl

/-! ## Runs -/

theorem plays_operateAll (h : s.Plays capture chunkSize) (os : List Operation) :
    (s.operateAll os).Plays capture chunkSize :=
  stateAfter_induction (P := fun s ↦ Plays s capture chunkSize) (fun _ o hs ↦ hs.operate o) h

/-- What a step delivers stands before what it leaves unread. -/
theorem delivered_append_unread (s : Replay) (o : Operation) :
    OperationStep.delivered ⟨s, o, (s.operate o).2, (s.operate o).1⟩ ++ (s.operate o).1.unread =
      s.unread := by
  cases o with
  | resume => rfl
  | close => rfl
  | @read room buffer =>
      cases ho : s.isOpen with
      | true =>
          rw [delivered_of_isOpen ho, operate_read_of_isOpen ho]
          exact s.next_append_unread room
      | false =>
          rw [operate_read_of_not_isOpen ho]
          rfl

/-- All that has been delivered stands before what is left unread. -/
theorem flatMap_delivered_append_unread (s : Replay) (os : List Operation) :
    (s.history os).flatMap OperationStep.delivered ++ (s.operateAll os).unread = s.unread :=
  flatMap_trace_append delivered_append_unread

/-- What a replay has delivered of a capture. -/
theorem delivered_eq_take (h : s.Plays capture chunkSize) (hs : s.position = 0)
    (os : List Operation) :
    (s.history os).flatMap OperationStep.delivered = capture.take (s.operateAll os).position := by
  have hall := flatMap_delivered_append_unread s os
  rw [(plays_operateAll h os).unread_eq, h.unread_eq, hs, List.drop_zero] at hall
  have htake : capture.take (s.operateAll os).position ++
      capture.drop (s.operateAll os).position = capture := List.take_append_drop ..
  exact List.append_cancel_right (hall.trans htake.symm)

/-- **A replay delivers every byte once.**  However a replay is opened, closed and read, what its
reads have delivered, one after another, is the capture up to the position it has come to.  A read
delivers as many bytes as there is room for in a chunk and in the capture, or fails and moves
nothing if the replay is closed; opening and closing move nothing.  The position never passes the
end of the capture, so that it can be subtracted from its length to count what is available, and the
replay is exhausted just when the whole capture has been delivered. -/
theorem delivers_each_byte_once (capture : List UInt8) {chunkSize : Nat} (h : 0 < chunkSize) :
    ∃ s, start capture chunkSize = .ok s ∧ s.isOpen = true ∧ ∀ os : List Operation,
      (s.history os).flatMap OperationStep.delivered = capture.take (s.operateAll os).position ∧
      (∀ t ∈ s.history os, t.Lawful capture chunkSize) ∧
      (s.operateAll os).position ≤ capture.length ∧
      Arithmetic.left? (s.operateAll os).data (s.operateAll os).position =
        some (capture.length - (s.operateAll os).position) ∧
      (s.operateAll os).available =
        (if (s.operateAll os).isOpen then
          min chunkSize (capture.length - (s.operateAll os).position) else 0) ∧
      ((s.operateAll os).isExhausted = true ↔
        (s.history os).flatMap OperationStep.delivered = capture) := by
  refine ⟨_, start_eq capture h, rfl, fun os ↦ ?_⟩
  generalize hs : (⟨capture, 0, chunkSize, true, h⟩ : Replay) = s
  have hplays : s.Plays capture chunkSize := by
    subst hs
    exact ⟨rfl, rfl, Nat.zero_le _⟩
  have hafter := plays_operateAll hplays os
  have hdelivered := delivered_eq_take hplays (by rw [← hs]) os
  refine ⟨hdelivered, ?_, hafter.position_le, hafter.left?_eq, hafter.available_eq, ?_⟩
  · exact forall_mem_trace (P := fun s ↦ Plays s capture chunkSize) (fun _ o hs ↦ hs.operate o)
      (fun _ o hs ↦ lawful_of_plays hs o) hplays
  · rw [hafter.isExhausted_iff, hdelivered, List.take_eq_self_iff]
    have hle := hafter.position_le
    omega

/-- A capture of five bytes in chunks of two.  The replay is closed after the first chunk, read in
vain, opened again, and read with little room. -/
theorem delivers_each_byte_once_with_pauses :
    let capture : List UInt8 := [0x01, 0x02, 0x05, 0x00, 0xFF]
    let s : Replay := ⟨capture, 0, 2, true, by decide⟩
    let zeros (room : Nat) : Vector UInt8 room := .replicate room 0
    let os : List Operation := [.read (zeros 8), .read (zeros 0), .close, .read (zeros 4), .resume,
      .read (zeros 1), .read (zeros 3)]
    (0 < 2 ∧ start capture 2 = .ok s) ∧
      (s.history os).map OperationStep.delivered =
        [[0x01, 0x02], [], [], [], [], [0x05], [0x00, 0xFF]] ∧
      (s.operateAll os).position = 5 ∧ (s.operateAll os).isExhausted = true ∧
      ∀ t ∈ s.history os, t.Lawful capture 2 := by
  intro capture s zeros os
  have hsize : 0 < 2 := by decide
  obtain ⟨s', hstart, -, hrun⟩ := delivers_each_byte_once capture hsize
  obtain rfl : s = s' := by
    rw [start_eq capture hsize] at hstart
    exact Except.ok.inj hstart
  obtain ⟨hdelivered, hlawful, -, -, -, hexhausted⟩ := hrun os
  have hposition : (s.operateAll os).position = 5 := by decide +kernel
  have hsteps : (s.history os).map OperationStep.delivered =
      [[0x01, 0x02], [], [], [], [], [0x05], [0x00, 0xFF]] := by decide +kernel
  refine ⟨⟨hsize, hstart⟩, hsteps, hposition, hexhausted.mpr ?_, hlawful⟩
  rw [hdelivered, hposition]
  rfl

end Replay

end LinkMonitor
