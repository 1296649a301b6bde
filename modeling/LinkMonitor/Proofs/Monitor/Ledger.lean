import LinkMonitor.Proofs.Monitor.Runs

/-!
# The ledger of a run

A monitor loses no byte and counts what it reports.  For the counts this is a matter of looking at
every place that reports something.  For the bytes it takes a ledger: a list of what became of
them, in which every posting stands for some bytes and for what was reported about them.

A posting for a message is made only if the registry knows a format for its header, which is when
the monitor reports the message.  So a message that is cut out of the stream and then passed over
in silence would leave a gap in the ledger, and `bytes_run` could not hold.  It holds because
segmentation gives no message without a format (`format?_isSome_of_mem_segment`), whichever
registry the pending bytes were left by.

The counters here are natural numbers.  Machine words hold them as long as they stay below
`2 ^ 64`.
-/

namespace LinkMonitor

namespace Event

def isDecoded : Event → Bool
  | .decoded _ => true
  | _ => false

def isUnrecognized : Event → Bool
  | .unrecognized _ => true
  | _ => false

theorem isDecoded_of_isNote {e : Event} (h : e.isNote = true) : e.isDecoded = false := by
  cases e with
  | note text => rfl
  | decoded text => contradiction
  | unrecognized b => contradiction

theorem isUnrecognized_of_isNote {e : Event} (h : e.isNote = true) :
    e.isUnrecognized = false := by
  cases e with
  | note text => rfl
  | decoded text => contradiction
  | unrecognized b => contradiction

end Event

/-! ## Postings -/

/-- What became of some bytes of the stream. -/
inductive Posting where
  /-- They are a frame, and were reported as a message. -/
  | frame (format : MessageFormat) (message : Message)
  /-- They are one byte that belongs to no frame. -/
  | noise (byte : UInt8)
  /-- They were pending when the stream was closed. -/
  | dropped (bytes : List UInt8)

namespace Posting

/-- The bytes that a posting stands for. -/
def bytes : Posting → List UInt8
  | .frame _ message => message.bytes
  | .noise b => [b]
  | .dropped bs => bs

/-- What is reported about the bytes of a posting. -/
def events : Posting → List Event
  | .frame format message => [.decoded (format.render message)]
  | .noise b => [.unrecognized b]
  | .dropped bs =>
    if bs.length = 0 then []
    else [.note ("discarded " ++ toString bs.length ++ " bytes of a partial frame")]

end Posting

namespace Registry

variable {r : Registry}

/-- The posting for a segment.  There is none for a message of an unknown header. -/
def posting? (r : Registry) : Segment → Option Posting
  | .message message => (r.format? message.header).map (.frame · message)
  | .unrecognized b => some (.noise b)

/-- Segmentation gives messages of known headers only. -/
theorem format?_isSome_of_mem_segment {bs : List UInt8} {m : Message}
    (hm : .message m ∈ (r.segment bs).1) : (r.format? m.header).isSome = true := by
  fun_induction segment r bs with
  | case1 => simp at hm
  | case2 => simp at hm
  | case3 => simp at hm
  | case4 high low rest hf segments pending hs ih =>
      rw [hs] at ih
      exact ih (by simpa using hm)
  | case5 => simp at hm
  | case6 high low rest f hf size data hlen segments pending hs ih =>
      rw [hs] at ih
      rcases List.mem_cons.mp hm with he | hm
      · cases he
        rw [hf]
        rfl
      · exact ih hm

/-- The postings for segments stand for the same bytes as long as all messages have formats. -/
theorem bytes_filterMap_posting? {ss : List Segment}
    (h : ∀ m, .message m ∈ ss → (r.format? m.header).isSome = true) :
    (ss.filterMap r.posting?).flatMap Posting.bytes = ss.flatMap Segment.bytes := by
  induction ss with
  | nil => rfl
  | cons s ss ih =>
      have htail := ih fun m hm ↦ h m (List.mem_cons_of_mem _ hm)
      cases s with
      | message m =>
          obtain ⟨f, hf⟩ := Option.isSome_iff_exists.mp (h m (List.mem_cons_self ..))
          have he : r.posting? (.message m) = some (.frame f m) := by simp [posting?, hf]
          simp only [List.filterMap_cons_some he, List.flatMap_cons, htail, Posting.bytes,
            Segment.bytes]
      | unrecognized b =>
          have he : r.posting? (.unrecognized b) = some (.noise b) := rfl
          simp only [List.filterMap_cons_some he, List.flatMap_cons, htail, Posting.bytes,
            Segment.bytes]

end Registry

namespace Monitor

variable {m : Monitor}

/-! ## Bookkeeping -/

namespace Action

/-- The bytes of the stream that an action hands over. -/
def received : Action → List UInt8
  | .ingest chunk => chunk
  | @Action.poll _ _ source => (ByteSource.delivery? source).getD []
  | .submit _ => []
  | .close => []
  | .edit _ => []

/-- Whether an action has to do with the stream. -/
def onStream : Action → Bool
  | .ingest _ => true
  | @Action.poll _ _ _ => true
  | .close => true
  | .submit _ => false
  | .edit _ => false

end Action

/-- The postings for the segments that a chunk completes. -/
def chunkPostings (m : Monitor) (chunk : List UInt8) : List Posting :=
  (m.reassembler.feed m.registry chunk).1.filterMap m.registry.posting?

/-- The postings that an action makes. -/
def postings (m : Monitor) : Action → List Posting
  | .ingest chunk => m.chunkPostings chunk
  | @Action.poll _ _ source => (ByteSource.delivery? source).elim [] m.chunkPostings
  | .submit _ => []
  | .close => [.dropped m.pending]
  | .edit _ => []

/-- The postings that a run makes, in order. -/
def ledger (m : Monitor) : List Action → List Posting
  | [] => []
  | a :: as => m.postings a ++ (m.perform a).1.ledger as

/-- What a run reports about the stream, as opposed to typed bytes and the registry. -/
def streamEvents (m : Monitor) (as : List Action) : List Event :=
  ((as.zip (m.run as).2).filter (·.1.onStream)).flatMap (·.2.1)

theorem streamEvents_cons (m : Monitor) (a : Action) (as : List Action) :
    m.streamEvents (a :: as) =
      (if a.onStream then (m.perform a).2.1 else []) ++ (m.perform a).1.streamEvents as := by
  cases h : a.onStream <;> simp [streamEvents, run_cons, h]

/-! ## Counts -/

/-- `Tallies m events after`: the counters of `after` are those of `m`, put forward by `events`. -/
structure Tallies (m : Monitor) (events : List Event) (after : Monitor) : Prop where
  messages : after.stats.messages = m.stats.messages + events.countP Event.isDecoded
  unrecognizedBytes :
    after.stats.unrecognizedBytes = m.stats.unrecognizedBytes + events.countP Event.isUnrecognized
  lengthMismatches :
    after.stats.lengthMismatches ≤ m.stats.lengthMismatches + events.countP Event.isDecoded

/-- Counters that do not move tally with notes. -/
theorem Tallies.of_notes {after : Monitor} {events : List Event} (hs : after.stats = m.stats)
    (hn : ∀ e ∈ events, e.isNote = true) : m.Tallies events after := by
  have hd : events.countP Event.isDecoded = 0 :=
    List.countP_eq_zero.mpr fun e he ↦ by simp [Event.isDecoded_of_isNote (hn e he)]
  have hu : events.countP Event.isUnrecognized = 0 :=
    List.countP_eq_zero.mpr fun e he ↦ by simp [Event.isUnrecognized_of_isNote (hn e he)]
  exact ⟨by rw [hs, hd]; rfl, by rw [hs, hu]; rfl, by rw [hs]; omega⟩

theorem Tallies.refl (m : Monitor) : m.Tallies [] m := .of_notes rfl (by simp)

theorem Tallies.trans {m₁ m₂ m₃ : Monitor} {e₁ e₂ : List Event} (h₁ : m₁.Tallies e₁ m₂)
    (h₂ : m₂.Tallies e₂ m₃) : m₁.Tallies (e₁ ++ e₂) m₃ := by
  obtain ⟨hm₁, hu₁, hl₁⟩ := h₁
  obtain ⟨hm₂, hu₂, hl₂⟩ := h₂
  constructor <;> simp only [List.countP_append] <;> omega

theorem tallies_receive (m : Monitor) (message : Message) :
    m.Tallies (m.receive message).2 (m.receive message).1 := by
  unfold receive
  split
  · exact .refl m
  · refine ⟨rfl, rfl, ?_⟩
    simp only [List.countP_cons, Event.isDecoded]
    split <;> simp

theorem tallies_handle (m : Monitor) (s : Segment) :
    m.Tallies (m.handle s).2 (m.handle s).1 := by
  cases s with
  | message message => exact m.tallies_receive message
  | unrecognized b => exact ⟨rfl, rfl, Nat.le_refl _⟩

theorem tallies_handleAll (m : Monitor) (ss : List Segment) :
    m.Tallies (m.handleAll ss).2 (m.handleAll ss).1 := by
  induction ss generalizing m with
  | nil => exact .refl m
  | cons s ss ih =>
      rw [handleAll_cons]
      exact (m.tallies_handle s).trans (ih (m.handle s).1)

theorem tallies_ingest (m : Monitor) (chunk : List UInt8) :
    m.Tallies (m.ingest chunk).2 (m.ingest chunk).1 := by
  rw [ingest_eq_handleAll]
  have h := (m.absorb chunk).tallies_handleAll (m.reassembler.feed m.registry chunk).1
  exact ⟨h.messages, h.unrecognizedBytes, h.lengthMismatches⟩

theorem tallies_submit (m : Monitor) (input : String) :
    m.Tallies (m.submit input).2.1 (m.submit input).1 := by
  unfold submit
  split
  · exact .refl m
  · exact m.tallies_handleAll _

/-- No action moves a counter without reporting what it counts. -/
theorem tallies_perform (m : Monitor) (a : Action) :
    m.Tallies (m.perform a).2.1 (m.perform a).1 := by
  cases a with
  | ingest chunk => exact m.tallies_ingest chunk
  | @poll σ _ source =>
      cases h : ByteSource.delivery? source with
      | none =>
          obtain ⟨hm, he⟩ := poll_of_delivery?_eq_none (m := m) h
          simp only [perform, hm, he]
          exact .refl m
      | some chunk =>
          obtain ⟨hm, he⟩ := poll_of_delivery?_eq_some (m := m) h
          simp only [perform, hm, he]
          exact m.tallies_ingest chunk
  | submit input => exact m.tallies_submit input
  | close =>
      refine .of_notes rfl ?_
      intro e he
      simp only [perform, close] at he
      split at he
      · simp at he
      · obtain rfl : e = _ := by simpa using he
        rfl
  | edit change => exact .of_notes rfl fun e he ↦ Registry.isNote_of_mem_edit he

theorem tallies_run (m : Monitor) (as : List Action) :
    m.Tallies (m.emitted as) (m.run as).1 := by
  induction as generalizing m with
  | nil => exact .refl m
  | cons a as ih =>
      rw [run_cons, emitted_cons]
      exact (m.tallies_perform a).trans (ih (m.perform a).1)

/-! ## Bytes -/

/-- What handling segments reports is what their postings say. -/
theorem events_handleAll (m : Monitor) (ss : List Segment) :
    (m.handleAll ss).2 = (ss.filterMap m.registry.posting?).flatMap Posting.events := by
  induction ss generalizing m with
  | nil => rfl
  | cons s ss ih =>
      rw [handleAll_cons, ih, handle_registry]
      cases s with
      | message message =>
          cases h : m.registry.format? message.header with
          | none => simp [handle, receive, Registry.posting?, h]
          | some f => simp [handle, receive, Registry.posting?, h, Posting.events]
      | unrecognized b => simp [handle, reject, Registry.posting?, Posting.events]

theorem events_ingest (m : Monitor) (chunk : List UInt8) :
    (m.ingest chunk).2 = (m.chunkPostings chunk).flatMap Posting.events := by
  rw [ingest_eq_handleAll, events_handleAll]
  rfl

/-- A chunk goes behind the pending bytes; the front of both goes into the ledger, and the rest is
pending. -/
theorem bytes_ingest (m : Monitor) (chunk : List UInt8) :
    m.pending ++ chunk =
      (m.chunkPostings chunk).flatMap Posting.bytes ++ (m.ingest chunk).1.pending := by
  have hpostings : (m.chunkPostings chunk).flatMap Posting.bytes =
      (m.registry.segment (m.pending ++ chunk)).1.flatMap Segment.bytes :=
    Registry.bytes_filterMap_posting? fun _ hm ↦ Registry.format?_isSome_of_mem_segment hm
  rw [pending_ingest, hpostings, Registry.bytes_segment]

theorem pending_submit (m : Monitor) (input : String) :
    (m.submit input).1.pending = m.pending := by
  unfold submit
  split
  · rfl
  · simp [pending]

/-- An action on the stream reports what its postings say. -/
theorem events_perform {a : Action} (ha : a.onStream = true) :
    (m.perform a).2.1 = (m.postings a).flatMap Posting.events := by
  cases a with
  | ingest chunk => exact m.events_ingest chunk
  | @poll σ _ source =>
      cases h : ByteSource.delivery? source with
      | none =>
          obtain ⟨-, he⟩ := poll_of_delivery?_eq_none (m := m) h
          simp only [perform, he, postings, h, Option.elim_none, List.flatMap_nil]
      | some chunk =>
          obtain ⟨-, he⟩ := poll_of_delivery?_eq_some (m := m) h
          simp only [perform, he, postings, h, Option.elim_some, events_ingest]
  | close => simp [perform, close, Reassembler.reset, postings, Posting.events, pending]
  | submit input => simp [Action.onStream] at ha
  | edit change => simp [Action.onStream] at ha

/-- An action beside the stream makes no postings. -/
theorem postings_of_onStream_eq_false {a : Action} (ha : a.onStream = false) :
    m.postings a = [] := by
  cases a with
  | submit input => rfl
  | edit change => rfl
  | ingest chunk => simp [Action.onStream] at ha
  | poll source => simp [Action.onStream] at ha
  | close => simp [Action.onStream] at ha

/-- An action keeps the balance: pending bytes and those that it hands over are either in its
postings or pending afterwards. -/
theorem bytes_perform (m : Monitor) (a : Action) :
    m.pending ++ a.received =
      (m.postings a).flatMap Posting.bytes ++ (m.perform a).1.pending := by
  cases a with
  | ingest chunk => exact m.bytes_ingest chunk
  | @poll σ _ source =>
      cases h : ByteSource.delivery? source with
      | none =>
          obtain ⟨hm, -⟩ := poll_of_delivery?_eq_none (m := m) h
          simp [perform, hm, Action.received, postings, h]
      | some chunk =>
          obtain ⟨hm, -⟩ := poll_of_delivery?_eq_some (m := m) h
          simpa [perform, hm, Action.received, postings, h] using m.bytes_ingest chunk
  | submit input =>
      simp [perform, Action.received, postings, pending_submit]
  | close =>
      simp [perform, close, Reassembler.reset, Action.received, postings, Posting.bytes, pending]
  | edit change => simp [perform, Action.received, postings, pending]

theorem bytes_run (m : Monitor) (as : List Action) :
    m.pending ++ as.flatMap Action.received =
      (m.ledger as).flatMap Posting.bytes ++ (m.run as).1.pending := by
  induction as generalizing m with
  | nil => simp [ledger]
  | cons a as ih =>
      calc
        m.pending ++ (a :: as).flatMap Action.received
        _ = m.pending ++ a.received ++ as.flatMap Action.received := by simp
        _ = (m.postings a).flatMap Posting.bytes ++
              ((m.perform a).1.pending ++ as.flatMap Action.received) := by
            rw [bytes_perform, List.append_assoc]
        _ = (m.postings a).flatMap Posting.bytes ++
              (((m.perform a).1.ledger as).flatMap Posting.bytes ++
                ((m.perform a).1.run as).1.pending) := by rw [ih]
        _ = (m.ledger (a :: as)).flatMap Posting.bytes ++ (m.run (a :: as)).1.pending := by
            simp [ledger, run_cons]

theorem streamEvents_eq_ledger (m : Monitor) (as : List Action) :
    m.streamEvents as = (m.ledger as).flatMap Posting.events := by
  induction as generalizing m with
  | nil => rfl
  | cons a as ih =>
      rw [streamEvents_cons, ih, ledger, List.flatMap_append]
      cases ha : a.onStream with
      | true => rw [if_pos rfl, events_perform ha]
      | false => simp [postings_of_onStream_eq_false ha]

/-- **A run keeps its books.**  Whatever a host does with a new monitor, and in whatever order, the
counters are the numbers of messages and of bytes that were reported; and the bytes that were
handed over are those of the frames, of the noise and of the closed streams in the ledger, followed
by the pending ones, while all that was reported about the stream is what the ledger says. -/
theorem run_keeps_books (r : Registry) (as : List Action) :
    let m : Monitor := { registry := r }
    let after := (m.run as).1
    after.stats.messages = (m.emitted as).countP Event.isDecoded ∧
      after.stats.unrecognizedBytes = (m.emitted as).countP Event.isUnrecognized ∧
      after.stats.lengthMismatches ≤ after.stats.messages ∧
      as.flatMap Action.received = (m.ledger as).flatMap Posting.bytes ++ after.pending ∧
      m.streamEvents as = (m.ledger as).flatMap Posting.events := by
  intro m after
  obtain ⟨hmessages, hbytes, hmismatches⟩ := m.tallies_run as
  simp only [m, Nat.zero_add] at hmessages hbytes hmismatches
  refine ⟨hmessages, hbytes, ?_, m.bytes_run as, m.streamEvents_eq_ledger as⟩
  exact hmessages ▸ hmismatches

end Monitor

end LinkMonitor
