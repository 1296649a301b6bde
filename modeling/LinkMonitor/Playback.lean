import LinkMonitor.Monitor

/-!
# Playing back a capture

A replay is polled until it is exhausted.  Each poll moves it by what it has ready
(`source_poll_replay`), so that this comes to an end.
-/

namespace LinkMonitor

/-- What polling a replay over and over has come to. -/
structure Playback where
  monitor : Monitor
  source : Replay
  events : List Event
  polls : Nat
  result : Except SourceError Unit

namespace Replay

/-- The replay behind what it has ready. -/
def dropChunk (s : Replay) : Replay := { s with position := s.position + s.available }

/-- A replay that is open and not exhausted has something ready. -/
theorem available_pos {s : Replay} (ho : s.isOpen = true) (hx : s.isExhausted = false) :
    0 < s.available := by
  have hc := s.chunkSize_pos
  have hu : s.position < s.data.length := by simpa [isExhausted] using hx
  rw [available_of_isOpen ho]
  omega

end Replay

namespace Monitor

/-- Polling moves a replay behind what it has ready. -/
theorem source_poll_replay (m : Monitor) (s : Replay) : (m.poll s).2.1 = s.dropChunk := by
  unfold poll
  split
  · rename_i h
    simp only [Bool.and_eq_true, ByteSource.isOpen] at h
    simp [ByteSource.read, ByteSource.available, Replay.read, Replay.dropChunk, h.1]
  · rename_i h
    have h0 : s.available = 0 := by
      cases ho : s.isOpen with
      | true => simpa [ByteSource.isOpen, ByteSource.available, ho] using h
      | false => exact Replay.available_of_not_isOpen ho
    simp [Replay.dropChunk, h0]

/-- Polls a replay until it is exhausted, or fails to deliver, or is not open. -/
def play (m : Monitor) (s : Replay) : Playback :=
  if _ : s.isOpen = true ∧ s.isExhausted = false then
    let polled := m.poll s
    match polled.2.2.2 with
    | .error e => ⟨polled.1, polled.2.1, polled.2.2.1, 1, .error e⟩
    | .ok _ =>
      let rest := polled.1.play polled.2.1
      { rest with events := polled.2.2.1 ++ rest.events, polls := rest.polls + 1 }
  else ⟨m, s, [], 0, .ok ()⟩
termination_by s.data.length - s.position
decreasing_by
  obtain ⟨ho, hx⟩ := ‹s.isOpen = true ∧ s.isExhausted = false›
  have hready := Replay.available_pos ho hx
  have hleft : s.position < s.data.length := by simpa [Replay.isExhausted] using hx
  rw [source_poll_replay]
  change s.data.length - (s.position + s.available) < s.data.length - s.position
  omega

end Monitor

end LinkMonitor
