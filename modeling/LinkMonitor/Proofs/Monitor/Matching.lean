import LinkMonitor.Proofs.Monitor.Submissions
import LinkMonitor.Proofs.Stream.Decomposition
import Mathlib.Data.List.Forall2

/-!
# Messages match their formats

A message of the stream is looked up twice: once to cut it off, and once to show it.  Nothing can
come between the two, since a registry does not change within an action, so that the second search
finds the format that the first has found, and the data has the length that this format says.  This
is so whichever registry the front of the frame was buffered under.

The length of the data is not plain to see, because lengths of frames are capped.  Under a format
near the cap a message would come with too little data, but there is none as long as fewer than
`2 ^ 63` bytes are buffered (`fits_of_mem_segment`).
-/

namespace LinkMonitor

namespace Registry

variable {r : Registry}

/-- `Shows r s e`: the event `e` is what there is to report of the segment `s`. -/
inductive Shows (r : Registry) : Segment → Event → Prop
  | /-- A byte that belongs to no frame. -/
    noise (b : UInt8) : Shows r (.unrecognized b) (.unrecognized b)
  | /-- A message whose data has no text. -/
    name {message : Message} {f : MessageFormat} : r.format? message.header = some f →
      message.data.length = f.length.toNat → Payload.decode f.spec message.data = none →
      Shows r (.message message) (.decoded f.name)
  | /-- A message whose data has a text. -/
    text {message : Message} {f : MessageFormat} {text : String} :
      r.format? message.header = some f → message.data.length = f.length.toNat →
      Payload.decode f.spec message.data = some text →
      Shows r (.message message) (.decoded (f.name ++ ":  " ++ text))

/-- A message has a format, and data of the length that its format says. -/
def Fits (r : Registry) : Segment → Prop
  | .message message =>
    ∃ f, r.format? message.header = some f ∧ message.data.length = f.length.toNat
  | .unrecognized _ => True

/-- Typed bytes are a known header with data of another length than its format says. -/
def Mismatched (r : Registry) (bytes : List UInt8) : Prop :=
  ∃ h data f, bytes = h.bytes ++ data ∧ r.format? h = some f ∧ data.length ≠ f.length.toNat

theorem fits_of_mem_segment {bs : List UInt8} (hlen : bs.length < 2 ^ 63) {s : Segment}
    (hs : s ∈ (r.segment bs).1) : r.Fits s := by
  cases s with
  | message message => exact (r.cut_segment hlen).isSegmentation.message hs
  | unrecognized b => trivial

/-! ## Counts -/

theorem lengthMismatches_count {s : Segment} (hs : r.Fits s) :
    (r.count s).lengthMismatches = 0 := by
  cases s with
  | message message =>
      obtain ⟨f, hf, hlen⟩ := hs
      simp [count, hf, hlen]
  | unrecognized b => rfl

theorem lengthMismatches_countAll {ss : List Segment} (hss : ∀ s ∈ ss, r.Fits s) :
    (r.countAll ss).lengthMismatches = 0 := by
  induction ss with
  | nil => rfl
  | cons s ss ih =>
      obtain ⟨hs, hss⟩ := List.forall_mem_cons.mp hss
      have htail := ih hss
      simp only [countAll, List.map_cons, List.sum_cons, Stats.lengthMismatches_add,
        lengthMismatches_count hs] at htail ⊢
      omega

theorem lengthMismatches_tally {bytes : List UInt8} (h : r.Mismatched bytes) :
    (r.tally bytes).lengthMismatches = 1 := by
  obtain ⟨k, data, f, rfl, hf, hne⟩ := h
  simp [tally, Header.bytes, hf, hne]

theorem lengthMismatches_tally_eq_zero {bytes : List UInt8} (h : ¬ r.Mismatched bytes) :
    (r.tally bytes).lengthMismatches = 0 := by
  match bytes with
  | [] => rfl
  | [b] => rfl
  | high :: low :: data =>
      cases hf : r.format? ⟨high, low⟩ with
      | none => simp [tally, hf]
      | some f =>
          have hlen : data.length = f.length.toNat := by
            by_contra hne
            exact h ⟨⟨high, low⟩, data, f, rfl, hf, hne⟩
          simp [tally, hf, hlen]

end Registry

namespace Monitor

variable {m : Monitor}

/-! ## What is reported of segments -/

theorem shows_handle {s : Segment} (hs : m.registry.Fits s) :
    ∃ e, (m.handle s).2 = [e] ∧ m.registry.Shows s e := by
  cases s with
  | message message =>
      obtain ⟨f, hf, hlen⟩ := hs
      refine ⟨.decoded (f.render message), by simp [handle, receive, hf], ?_⟩
      cases ht : Payload.decode f.spec message.data with
      | none =>
          have hrender : f.render message = f.name := by simp [MessageFormat.render, hlen, ht]
          exact hrender ▸ .name hf hlen ht
      | some text =>
          have hrender : f.render message = f.name ++ ":  " ++ text := by
            simp [MessageFormat.render, hlen, ht]
          exact hrender ▸ .text hf hlen ht
  | unrecognized b => exact ⟨.unrecognized b, rfl, .noise b⟩

/-- One event is reported of each segment, in order. -/
theorem shows_handleAll {ss : List Segment} (hss : ∀ s ∈ ss, m.registry.Fits s) :
    List.Forall₂ m.registry.Shows ss (m.handleAll ss).2 := by
  induction ss generalizing m with
  | nil => exact .nil
  | cons s ss ih =>
      obtain ⟨hs, hss⟩ := List.forall_mem_cons.mp hss
      obtain ⟨e, he, hshows⟩ := shows_handle hs
      have hrest := ih (m := (m.handle s).1) (by rwa [handle_registry])
      rw [handle_registry] at hrest
      rw [handleAll_cons, he]
      exact .cons hshows hrest

/-! ## What is read from the stream -/

/-- All that a chunk completes fits the registry that it is cut by. -/
theorem fits_of_mem_feed {chunk : List UInt8} (hlen : m.pending.length + chunk.length < 2 ^ 63)
    {s : Segment} (hs : s ∈ (m.reassembler.feed m.registry chunk).1) : m.registry.Fits s := by
  have hbuffered : (m.pending ++ chunk).length < 2 ^ 63 := by simpa using hlen
  exact Registry.fits_of_mem_segment hbuffered hs

theorem shows_ingest {chunk : List UInt8} (hlen : m.pending.length + chunk.length < 2 ^ 63) :
    List.Forall₂ m.registry.Shows (m.reassembler.feed m.registry chunk).1 (m.ingest chunk).2 := by
  rw [ingest_eq_handleAll]
  exact shows_handleAll (m := m.absorb chunk) fun s hs ↦ fits_of_mem_feed hlen hs

theorem lengthMismatches_ingest {chunk : List UInt8}
    (hlen : m.pending.length + chunk.length < 2 ^ 63) :
    (m.ingest chunk).1.stats.lengthMismatches = m.stats.lengthMismatches := by
  have hzero := Registry.lengthMismatches_countAll fun s hs ↦ fits_of_mem_feed (m := m) hlen hs
  rw [ingest_eq_handleAll, handleAll_eq_credit]
  simp only [credit, absorb, Stats.lengthMismatches_add, hzero, Nat.add_zero]

namespace Step

/-- The segments that a step completes. -/
def segments (s : Step) : List Segment :=
  s.action.chunk?.elim [] fun chunk ↦ (s.before.reassembler.feed s.before.registry chunk).1

/-- The step is a submission of a known header with data of the wrong length. -/
def Mismatches (s : Step) : Prop :=
  ∃ input bytes, s.action = .submit input ∧ HexInput.parse input = .ok bytes ∧
    s.before.registry.Mismatched bytes

variable {s : Step}

theorem shows_of_isRead (hr : s.action.isRead = true)
    (hlen : s.before.pending.length + s.action.received.length < 2 ^ 63) :
    List.Forall₂ s.before.registry.Shows s.segments s.events := by
  cases h : s.action.chunk? with
  | none =>
      rw [segments, events, (perform_of_chunk?_eq_none hr h).2, h]
      exact .nil
  | some chunk =>
      rw [Action.received_eq, h] at hlen
      rw [segments, events, (perform_of_chunk?_eq_some h).2, h]
      exact shows_ingest hlen

theorem lengthMismatches_of_isRead (hr : s.action.isRead = true)
    (hlen : s.before.pending.length + s.action.received.length < 2 ^ 63) :
    s.after.stats.lengthMismatches = s.before.stats.lengthMismatches := by
  cases h : s.action.chunk? with
  | none => rw [after, (perform_of_chunk?_eq_none hr h).1]
  | some chunk =>
      rw [Action.received_eq, h] at hlen
      rw [after, (perform_of_chunk?_eq_some h).1]
      exact lengthMismatches_ingest hlen

theorem lengthMismatches_of_mismatches (h : s.Mismatches) :
    s.after.stats.lengthMismatches = s.before.stats.lengthMismatches + 1 := by
  obtain ⟨m, a⟩ := s
  obtain ⟨input, bytes, rfl, hp, hb⟩ := h
  have hone : (m.registry.contribution input).lengthMismatches = 1 := by
    simpa only [Registry.contribution, hp] using Registry.lengthMismatches_tally hb
  rw [after_of_isSubmit rfl]
  simp only [credit, contribution, Stats.lengthMismatches_add, hone]

/-- Nothing but such a submission counts as a mismatch. -/
theorem lengthMismatches_of_not_mismatches (h : ¬ s.Mismatches)
    (hlen : s.before.pending.length + s.action.received.length < 2 ^ 63) :
    s.after.stats.lengthMismatches = s.before.stats.lengthMismatches := by
  obtain ⟨m, a⟩ := s
  cases a with
  | ingest chunk => exact lengthMismatches_of_isRead rfl hlen
  | poll source => exact lengthMismatches_of_isRead rfl hlen
  | submit input =>
      have hzero : (m.registry.contribution input).lengthMismatches = 0 := by
        cases hp : HexInput.parse input with
        | error e => simp [Registry.contribution, hp]
        | ok bytes =>
            have hb : ¬ m.registry.Mismatched bytes := fun hb ↦ h ⟨input, bytes, rfl, hp, hb⟩
            simpa only [Registry.contribution, hp] using
              Registry.lengthMismatches_tally_eq_zero hb
      rw [after_of_isSubmit rfl]
      simp only [credit, contribution, Stats.lengthMismatches_add, hzero, Nat.add_zero]
  | close => rfl
  | edit change => rfl

end Step

/-- **Messages match their formats.**  As long as fewer than `2 ^ 63` bytes are buffered, every read
of a run reports one event for each segment that it completes, in order; a message is shown under
the format that the present registry has for its header, and its data has the length that this
format says.  So no read counts as a mismatch.  What does is the submission of a known header with
data of another length, each such submission once, and nothing else. -/
theorem messages_match_formats {m : Monitor} {as : List Action}
    (h : ∀ s ∈ m.steps as, s.before.pending.length + s.action.received.length < 2 ^ 63) :
    (m.run as).2 = (m.steps as).map (fun s ↦ (s.events, s.reply)) ∧
      (∀ s ∈ m.steps as, s.action.isRead = true →
        List.Forall₂ s.before.registry.Shows s.segments s.events ∧
          s.after.stats.lengthMismatches = s.before.stats.lengthMismatches) ∧
      (∀ s ∈ m.steps as, s.Mismatches →
        s.after.stats.lengthMismatches = s.before.stats.lengthMismatches + 1) ∧
      (∀ s ∈ m.steps as, ¬ s.Mismatches →
        s.after.stats.lengthMismatches = s.before.stats.lengthMismatches) := by
  refine ⟨m.outputs_run as, ?_, ?_, ?_⟩
  · intro s hs hr
    exact ⟨Step.shows_of_isRead hr (h s hs), Step.lengthMismatches_of_isRead hr (h s hs)⟩
  · exact fun s _ hm ↦ Step.lengthMismatches_of_mismatches hm
  · exact fun s hs hm ↦ Step.lengthMismatches_of_not_mismatches hm (h s hs)

/-- The front of a frame is buffered under a format of the greatest length.  Then the format is
replaced, the frame is completed by a poll, and a message with too little data is typed while half
of a header is pending. -/
theorem messages_match_formats_after_replacement :
    let m : Monitor :=
      { registry := { site := [⟨⟨0x01, 0x02⟩, "Bulk", 0xFFFFFFFFFFFFFFFF, ""⟩] } }
    let source : Replay := ⟨[0x00, 0xFF, 0x01], 0, 5, true, by decide⟩
    let as : List Action :=
      [.ingest [0x01, 0x02, 0x05], .edit (.replace [⟨⟨0x01, 0x02⟩, "Speed", 2, "g * 2 h"⟩] .site),
        .poll source, .submit "1 2 7"]
    (∀ s ∈ m.steps as, s.before.pending.length + s.action.received.length < 2 ^ 63) ∧
      (∀ s ∈ m.steps as, s.action.isRead = true →
        List.Forall₂ s.before.registry.Shows s.segments s.events ∧
          s.after.stats.lengthMismatches = s.before.stats.lengthMismatches) ∧
      m.emitted as =
        [.decoded "Speed:  10 h", .unrecognized 0xFF,
          .decoded "Speed:  Message Format Does Not Match Data Length"] ∧
      (m.run as).1.stats.lengthMismatches = 1 := by
  intro m source as
  have htotal : m.pending.length + (as.flatMap Action.received).length < 2 ^ 63 := by decide +kernel
  have hlen : ∀ s ∈ m.steps as,
      s.before.pending.length + s.action.received.length < 2 ^ 63 :=
    fun s hs ↦ Nat.lt_of_le_of_lt (length_buffered_le hs) htotal
  exact ⟨hlen, (messages_match_formats hlen).2.1, by decide +kernel, by decide +kernel⟩

end Monitor

end LinkMonitor
