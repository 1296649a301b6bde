import LinkMonitor.Playback
import LinkMonitor.Proofs.Monitor.Runs
import LinkMonitor.Proofs.Stream.Chunks
import Mathlib.Algebra.Order.Floor.Div

/-!
# Playing back at any pace

A replay hands over a capture in chunks of a size that somebody chose.  This file shows that the
choice decides how often the replay is polled, and nothing else: what a monitor reports of the
capture, and what it has counted and keeps pending in the end, is what comes of taking the whole
capture at once (`playsWhole_play`).

The reassembler does not see where a stream is cut (`Reassembler.feed_append`), and handling
segments neither looks at the pending bytes nor moves them, so that a monitor does not see it either
(`ingest_append`).  An empty capture is never polled, and the whole of it taken at once should do
nothing as well.  That is so for a monitor that has cut off all that can be cut off (`Settled`),
such as a new one, or one that has just taken a chunk.
-/

namespace LinkMonitor

namespace Monitor

variable {m : Monitor}

/-! ## Chunks -/

theorem handleAll_append (m : Monitor) (ss ts : List Segment) :
    m.handleAll (ss ++ ts) =
      (((m.handleAll ss).1.handleAll ts).1,
        (m.handleAll ss).2 ++ ((m.handleAll ss).1.handleAll ts).2) := by
  induction ss generalizing m with
  | nil => rfl
  | cons s ss ih => simp only [List.cons_append, handleAll_cons, ih, List.append_assoc]

/-- The monitor with other pending bytes. -/
def withReassembler (m : Monitor) (a : Reassembler) : Monitor := { m with reassembler := a }

theorem handle_withReassembler (m : Monitor) (a : Reassembler) (s : Segment) :
    (m.withReassembler a).handle s = ((m.handle s).1.withReassembler a, (m.handle s).2) := by
  cases s with
  | message message =>
      simp only [handle, receive, withReassembler]
      cases m.registry.format? message.header <;> rfl
  | unrecognized b => rfl

/-- Segments are handled without regard to pending bytes. -/
theorem handleAll_withReassembler (m : Monitor) (a : Reassembler) (ss : List Segment) :
    (m.withReassembler a).handleAll ss =
      ((m.handleAll ss).1.withReassembler a, (m.handleAll ss).2) := by
  induction ss generalizing m with
  | nil => rfl
  | cons s ss ih => rw [handleAll_cons, handleAll_cons, handle_withReassembler, ih]

theorem ingest_eq_withReassembler (m : Monitor) (chunk : List UInt8) :
    m.ingest chunk =
      ((m.handleAll (m.reassembler.feed m.registry chunk).1).1.withReassembler
          (m.reassembler.feed m.registry chunk).2,
        (m.handleAll (m.reassembler.feed m.registry chunk).1).2) := by
  rw [← handleAll_withReassembler]
  rfl

/-- Two chunks in a row are as good as one. -/
theorem ingest_append (m : Monitor) (s t : List UInt8) :
    m.ingest (s ++ t) =
      (((m.ingest s).1.ingest t).1, (m.ingest s).2 ++ ((m.ingest s).1.ingest t).2) := by
  have ha : (m.ingest s).1.reassembler = (m.reassembler.feed m.registry s).2 := by
    rw [ingest_eq_withReassembler]
    rfl
  rw [ingest_eq_withReassembler (m.ingest s).1 t, registry_ingest, ha,
    ingest_eq_withReassembler m (s ++ t), Reassembler.feed_append, handleAll_append,
    ingest_eq_withReassembler m s, handleAll_withReassembler]
  rfl

/-! ## Settled monitors -/

/-- Nothing more can be cut off the pending bytes. -/
def Settled (m : Monitor) : Prop := m.ingest [] = (m, [])

theorem settled_of_segment_eq (h : m.registry.segment m.pending = ([], m.pending)) : m.Settled := by
  have hfeed : m.reassembler.feed m.registry [] = ([], m.reassembler) := by
    rw [Reassembler.feed, List.append_nil, show m.reassembler.pending = m.pending from rfl, h]
    rfl
  rw [Settled, ingest_eq_withReassembler, hfeed]
  rfl

theorem settled_new (r : Registry) : Settled { registry := r } :=
  settled_of_segment_eq (Registry.segment_nil r)

end Monitor

/-- What is left over cannot be cut further. -/
theorem Registry.segment_pending (r : Registry) (bs : List UInt8) :
    r.segment (r.segment bs).2 = ([], (r.segment bs).2) := by
  have h := r.segment_append bs []
  simp only [List.append_nil, Prod.ext_iff, List.self_eq_append_right] at h
  exact Prod.ext h.1 h.2.symm

namespace Monitor

/-- Bytes that a chunk has left pending cannot be cut further under the same registry. -/
theorem settled_of_ingest {m before : Monitor} {chunk : List UInt8}
    (hr : before.registry = m.registry) (hp : (before.ingest chunk).1.pending = m.pending) :
    m.Settled := by
  refine settled_of_segment_eq ?_
  rw [← hp, ← hr, pending_ingest, Registry.segment_pending]

theorem settled_ingest (m : Monitor) (chunk : List UInt8) : (m.ingest chunk).1.Settled :=
  settled_of_ingest (m.registry_ingest chunk).symm rfl

end Monitor

/-! ## Polls -/

namespace Replay

variable {s : Replay}

theorem isExhausted_iff : s.isExhausted = true ↔ s.unread = [] := by
  simp [isExhausted, unread]

/-- What is ready is the first chunk of what is left. -/
theorem take_available (ho : s.isOpen = true) :
    s.unread.take s.available = s.unread.take s.chunkSize := by
  rw [available_of_isOpen ho, ← length_unread, List.take_eq_take_iff]
  omega

theorem unread_dropChunk (ho : s.isOpen = true) :
    s.dropChunk.unread = s.unread.drop s.chunkSize := by
  have hdrop : s.dropChunk.unread = s.unread.drop s.available := by
    simp only [unread, dropChunk, List.drop_drop]
  rw [hdrop, available_of_isOpen ho, ← length_unread, List.drop_eq_drop_iff]
  omega

theorem size_dropChunk (s : Replay) : s.dropChunk.size = s.size := rfl

end Replay

namespace Monitor

variable {s : Replay}

/-- Polling a replay that is not exhausted takes its first chunk. -/
theorem poll_replay (m : Monitor) (ho : s.isOpen = true) (hx : s.isExhausted = false) :
    m.poll s =
      ((m.ingest (s.unread.take s.chunkSize)).1, s.dropChunk,
        (m.ingest (s.unread.take s.chunkSize)).2, .ok (s.unread.take s.chunkSize).length) := by
  have hlength : (s.unread.take s.available).length = s.available :=
    List.length_take_of_le s.available_le_length
  have hread : ByteSource.read s (Vector.replicate (ByteSource.available s) 0) =
      (s.dropChunk, overwrite (Vector.replicate s.available 0) (s.unread.take s.available),
        .ok ⟨s.available, Nat.lt_succ_self _⟩) := by
    simp [ByteSource.read, ByteSource.available, Replay.read, Replay.dropChunk, ho]
  rw [← Replay.take_available ho]
  exact poll_of_read ho (Replay.available_pos ho hx) hread (toList_overwrite hlength.le _) hlength

/-! ## Playback -/

theorem play_of_isExhausted (m : Monitor) (hx : s.isExhausted = true) :
    m.play s = ⟨m, s, [], 0, .ok ()⟩ := by
  rw [play, dif_neg (by simp [hx])]

/-- Playing back a replay that is not exhausted begins with its first chunk. -/
theorem play_of_not_isExhausted (m : Monitor) (ho : s.isOpen = true)
    (hx : s.isExhausted = false) :
    let rest := (m.ingest (s.unread.take s.chunkSize)).1.play s.dropChunk
    m.play s =
      { rest with
        events := (m.ingest (s.unread.take s.chunkSize)).2 ++ rest.events
        polls := rest.polls + 1 } := by
  intro rest
  rw [play, dif_pos ⟨ho, hx⟩, poll_replay m ho hx]

/-- One poll more is needed than for what is left after the first chunk. -/
theorem ceilDiv_eq_succ {n c : Nat} (hn : 0 < n) (hc : 0 < c) :
    n ⌈/⌉ c = (n - c) ⌈/⌉ c + 1 := by
  rw [Nat.ceilDiv_eq_add_pred_div, Nat.ceilDiv_eq_add_pred_div]
  have hfirst : (n + c - 1) / c = (n - 1) / c + 1 := by
    rw [show n + c - 1 = n - 1 + c by omega, Nat.add_div_right _ hc]
  have hrest : (n - c + c - 1) / c = (n - 1) / c := by
    by_cases hle : c ≤ n
    · rw [Nat.sub_add_cancel hle]
    · rw [Nat.div_eq_of_lt (by omega), Nat.div_eq_of_lt (by omega)]
  rw [hfirst, hrest]

/-- What playing back an open replay comes to: what the whole of it comes to at once, after as many
polls as there are chunks. -/
structure PlaysWhole (m : Monitor) (s : Replay) (p : Playback) : Prop where
  result : p.result = .ok ()
  monitor : p.monitor = (m.ingest s.unread).1
  events : p.events = (m.ingest s.unread).2
  polls : p.polls = s.unread.length ⌈/⌉ s.chunkSize
  isExhausted : p.source.isExhausted = true
  size : p.source.size = s.size

/-- However a capture is cut into chunks, playing it back is taking it at once. -/
theorem playsWhole_play {m : Monitor} (hm : m.Settled) (ho : s.isOpen = true) :
    m.PlaysWhole s (m.play s) := by
  generalize hn : s.unread.length = n
  induction n using Nat.strong_induction_on generalizing m s with
  | _ n ih =>
      cases hx : s.isExhausted with
      | true =>
          have hu : s.unread = [] := Replay.isExhausted_iff.mp hx
          rw [play_of_isExhausted m hx]
          constructor <;> simp [hu, hx, show m.ingest [] = (m, []) from hm]
      | false =>
          have hpos : 0 < s.unread.length := by
            rw [List.length_pos_iff, ne_eq, ← Replay.isExhausted_iff, hx]
            exact Bool.false_ne_true
          have hafter := Replay.unread_dropChunk ho
          have hlt : s.dropChunk.unread.length < n := by
            have := s.chunkSize_pos
            rw [hafter, List.length_drop]
            omega
          have hrest := ih _ hlt (m.settled_ingest (s.unread.take s.chunkSize)) (s := s.dropChunk)
            ho rfl
          have hwhole : m.ingest s.unread =
              (((m.ingest (s.unread.take s.chunkSize)).1.ingest s.dropChunk.unread).1,
                (m.ingest (s.unread.take s.chunkSize)).2 ++
                  ((m.ingest (s.unread.take s.chunkSize)).1.ingest s.dropChunk.unread).2) := by
            rw [← ingest_append, hafter, List.take_append_drop]
          rw [play_of_not_isExhausted m ho hx]
          refine ⟨hrest.result, ?_, ?_, ?_, hrest.isExhausted, ?_⟩
          · simp only [hrest.monitor, hwhole]
          · simp only [hrest.events, hwhole]
          · rw [hrest.polls, ceilDiv_eq_succ hpos s.chunkSize_pos, hafter, List.length_drop]
            rfl
          · rw [← s.size_dropChunk, ← hrest.size]

end Monitor

end LinkMonitor
