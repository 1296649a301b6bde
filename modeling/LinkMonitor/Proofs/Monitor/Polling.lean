import LinkMonitor.Proofs.Monitor.Playback
import LinkMonitor.Proofs.Monitor.Steps

/-!
# Polling sources of any kind

A source may be closed, have nothing ready, fail, or deliver fewer bytes than it has announced, and
it may do so between any two bytes of a frame.  Polls of such sources, one after another, come to
what ingesting all the delivered bytes at once comes to (`run_of_isRead`).

Polls that take nothing do nothing, and chunks that follow each other are as good as one
(`ingest_append`).  What is left is the case that nothing is delivered at all: then ingesting
nothing has to do nothing, and so it does if the pending bytes have been cut by the present registry
before (`UpToDate`).
-/

namespace LinkMonitor

/-- A source for one poll: whether it is open, how many bytes it announces, and what it would write
to a buffer with room for it. -/
structure Scripted where
  isOpen : Bool
  available : Nat
  written : Except SourceError (List UInt8)

instance : ByteSource Scripted where
  isOpen := Scripted.isOpen
  available := Scripted.available
  read {room} s buffer :=
    match s.written with
    | .error e => (s, buffer, .error e)
    | .ok bytes => (s, overwrite buffer bytes, .ok ⟨min bytes.length room, by omega⟩)

namespace Monitor

variable {m : Monitor}

/-! ## A single poll -/

/-- What polling a source comes to: the monitor and the source afterwards, the events, and the
result. -/
inductive Polled {σ : Type} [ByteSource σ] (m : Monitor) (s : σ) :
    Monitor × σ × List Event × Except SourceError Nat → Prop
  | /-- The source is closed or has nothing ready, and is not read. -/
    idle : ByteSource.isOpen s = false ∨ ByteSource.available s = 0 → Polled m s (m, s, [], .ok 0)
  | /-- The source fails. -/
    failed {rest : σ} {buffer : Vector UInt8 (ByteSource.available s)} {e : SourceError} :
      ByteSource.isOpen s = true → 0 < ByteSource.available s →
      ByteSource.read s (Vector.replicate (ByteSource.available s) 0) = (rest, buffer, .error e) →
      Polled m s (m, rest, [], .error e)
  | /-- The source delivers some bytes, and just these are ingested. -/
    delivered {rest : σ} {buffer : Vector UInt8 (ByteSource.available s)}
      {count : Fin (ByteSource.available s + 1)} :
      ByteSource.isOpen s = true → 0 < ByteSource.available s →
      ByteSource.read s (Vector.replicate (ByteSource.available s) 0) = (rest, buffer, .ok count) →
      Polled m s ((m.ingest (buffer.toList.take count)).1, rest,
        (m.ingest (buffer.toList.take count)).2, .ok count)

theorem polled_poll {σ : Type} [ByteSource σ] (m : Monitor) (s : σ) : m.Polled s (m.poll s) := by
  unfold poll
  split
  · rename_i hready
    simp only [Bool.and_eq_true, decide_eq_true_eq] at hready
    obtain ⟨hopen, havailable⟩ := hready
    rcases hread : ByteSource.read s (Vector.replicate (ByteSource.available s) 0) with
      ⟨rest, buffer, e | count⟩
    · exact .failed hopen havailable hread
    · exact .delivered hopen havailable hread
  · rename_i hready
    refine .idle ?_
    simp only [Bool.and_eq_true, decide_eq_true_eq, not_and_or, Bool.not_eq_true] at hready
    exact hready.imp_right (by omega)

/-! ## Monitors that are up to date -/

/-- The pending bytes, if there are any, were left under the present registry, by ingesting a chunk
or by a poll that has taken one.  A poll that takes nothing does not count as leaving them, since it
does not touch them: what is pending after it may still be cut by a registry that has changed. -/
inductive UpToDate (m : Monitor) : Prop
  | nothing : m.pending = [] → UpToDate m
  | ingest {before : Monitor} {chunk : List UInt8} : before.registry = m.registry →
      (before.ingest chunk).1.pending = m.pending → UpToDate m
  | poll {before : Monitor} {σ : Type} [ByteSource σ] {source : σ} {chunk : List UInt8} :
      ByteSource.delivery? source = some chunk → before.registry = m.registry →
      (before.poll source).1.pending = m.pending → UpToDate m

theorem UpToDate.settled (h : m.UpToDate) : m.Settled := by
  cases h with
  | nothing hp => exact settled_of_segment_eq (by rw [hp, Registry.segment_nil])
  | ingest hr hp => exact settled_of_ingest hr hp
  | poll hd hr hp => exact settled_of_ingest hr ((poll_of_delivery?_eq_some hd).1 ▸ hp)

/-! ## Many reads -/

/-- A read does what ingesting the bytes that it takes does, be they none. -/
theorem perform_of_isRead (hm : m.Settled) {a : Action} (ha : a.isRead = true) :
    (m.perform a).1 = (m.ingest a.received).1 ∧ (m.perform a).2.1 = (m.ingest a.received).2 := by
  rw [Action.received_eq]
  cases h : a.chunk? with
  | none =>
      have hnothing : m.ingest [] = (m, []) := hm
      rw [Option.getD_none, hnothing]
      exact perform_of_chunk?_eq_none ha h
  | some chunk => exact perform_of_chunk?_eq_some h

/-- Reads one after another are as good as ingesting all that they take at once. -/
theorem run_of_isRead (hm : m.Settled) {as : List Action} (has : ∀ a ∈ as, a.isRead = true) :
    (m.run as).1 = (m.ingest (as.flatMap Action.received)).1 ∧
      m.emitted as = (m.ingest (as.flatMap Action.received)).2 := by
  induction as generalizing m with
  | nil =>
      have hnothing : m.ingest [] = (m, []) := hm
      simp [hnothing, emitted]
  | cons a as ih =>
      obtain ⟨ha, has⟩ := List.forall_mem_cons.mp has
      obtain ⟨hafter, hevents⟩ := perform_of_isRead hm ha
      obtain ⟨hrun, hemitted⟩ := ih (m.settled_ingest a.received) has
      rw [List.flatMap_cons, ingest_append, run_cons, emitted_cons, hafter, hevents, hrun, hemitted]
      exact ⟨rfl, rfl⟩

def Action.isPoll : Action → Bool
  | @Action.poll _ _ _ => true
  | _ => false

theorem Action.isRead_of_isPoll {a : Action} (h : a.isPoll = true) : a.isRead = true := by
  cases a with
  | poll source => rfl
  | _ => simp [Action.isPoll] at h

/-- **Polls lose nothing.**  A monitor that is up to date may poll any sources, one after another,
that are closed, have nothing ready, fail, or deliver any bytes.  All polls together report what
ingesting all the delivered bytes at once reports, and leave the same pending bytes and counters.
Each poll gives back the number of bytes that were delivered, or zero without reading the source, or
the error of the source, and nothing has happened then.  What a source leaves of the buffer that it
is handed is not taken for bytes of the stream. -/
theorem polls_lose_nothing (hm : m.UpToDate) {as : List Action}
    (has : ∀ a ∈ as, a.isPoll = true) :
    m.emitted as = (m.ingest (as.flatMap Action.received)).2 ∧
      (m.run as).1 = (m.ingest (as.flatMap Action.received)).1 ∧
      (∀ (before : Monitor) {σ : Type} [ByteSource σ] (s : σ), before.Polled s (before.poll s)) ∧
      (∀ (before : Monitor) {σ : Type} [ByteSource σ] (s rest : σ)
        (buffer : Vector UInt8 (ByteSource.available s)) (count : Fin (ByteSource.available s + 1))
        (written padding : List UInt8), ByteSource.isOpen s = true → 0 < ByteSource.available s →
        ByteSource.read s (Vector.replicate (ByteSource.available s) 0) =
          (rest, buffer, .ok count) →
        buffer.toList = written ++ padding → written.length = count →
        before.poll s = ((before.ingest written).1, rest, (before.ingest written).2,
          .ok written.length)) := by
  have hreads : ∀ a ∈ as, a.isRead = true := fun a ha ↦ Action.isRead_of_isPoll (has a ha)
  obtain ⟨hrun, hemitted⟩ := run_of_isRead hm.settled hreads
  refine ⟨hemitted, hrun, fun before _ _ s ↦ before.polled_poll s, ?_⟩
  exact fun before _ _ s rest buffer count written padding ho ha hr hb hc ↦
    poll_of_read ho ha hr hb hc

/-- A header is pending.  Its data comes in two polls, the first of which delivers less than was
announced, and between them a source is closed, one fails and one has nothing ready. -/
theorem polls_lose_nothing_short_of_data :
    let idle : Monitor := { registry := { site := [⟨⟨0x01, 0x02⟩, "Speed", 2, "g * 2 h"⟩] } }
    let m : Monitor := { idle with reassembler := ⟨[0x01, 0x02]⟩ }
    let sources : List Scripted :=
      [⟨true, 4, .ok [0x05]⟩, ⟨false, 4, .ok [0x07]⟩, ⟨true, 1, .error (.io "timed out")⟩,
        ⟨true, 0, .ok []⟩, ⟨true, 2, .ok [0x00, 0xFF]⟩]
    let as : List Action := sources.map (.poll ·)
    m.UpToDate ∧ (∀ a ∈ as, a.isPoll = true) ∧ as.flatMap Action.received = [0x05, 0x00, 0xFF] ∧
      m.emitted as = (m.ingest [0x05, 0x00, 0xFF]).2 ∧
      m.emitted as = [.decoded "Speed:  10 h", .unrecognized 0xFF] ∧
      (m.run as).1 = (m.ingest [0x05, 0x00, 0xFF]).1 := by
  intro idle m sources as
  have hpending : (idle.ingest [0x01, 0x02]).1.pending = m.pending := by decide +kernel
  have hm : m.UpToDate := .ingest rfl hpending
  have has : ∀ a ∈ as, a.isPoll = true := by simp [as, Action.isPoll]
  have hreceived : as.flatMap Action.received = [0x05, 0x00, 0xFF] := by decide +kernel
  obtain ⟨hemitted, hrun, -⟩ := polls_lose_nothing hm has
  rw [hreceived] at hemitted hrun
  exact ⟨hm, has, hreceived, hemitted, hemitted.trans (by decide +kernel), hrun⟩

end Monitor

end LinkMonitor
