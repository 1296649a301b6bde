import LinkMonitor.Proofs.Monitor.Ledger

/-!
# The steps of a run

A run comes through a state of the monitor for each of its actions.  A step is an action together
with the state that it finds, so that what holds of every step of a run is said of every action in
the place where it stands.  What a run reports and gives back is what its steps report and give
back (`outputs_run`).
-/

namespace LinkMonitor

namespace Monitor

/-- An action, and the monitor that performs it. -/
structure Step : Type 1 where
  before : Monitor
  action : Action

namespace Step

def after (s : Step) : Monitor := (s.before.perform s.action).1

def events (s : Step) : List Event := (s.before.perform s.action).2.1

def reply (s : Step) : Reply := (s.before.perform s.action).2.2

end Step

/-- The steps of a run, in order. -/
def steps (m : Monitor) : List Action → List Step
  | [] => []
  | a :: as => ⟨m, a⟩ :: (m.perform a).1.steps as

@[simp] theorem steps_nil (m : Monitor) : m.steps [] = [] := rfl

theorem steps_cons (m : Monitor) (a : Action) (as : List Action) :
    m.steps (a :: as) = ⟨m, a⟩ :: (m.perform a).1.steps as := rfl

variable {m : Monitor}

theorem outputs_run (m : Monitor) (as : List Action) :
    (m.run as).2 = (m.steps as).map fun s ↦ (s.events, s.reply) := by
  induction as generalizing m with
  | nil => rfl
  | cons a as ih =>
      rw [run_cons, steps_cons, List.map_cons, ih]
      rfl

/-! ## Reads -/

namespace Action

/-- Whether an action reads the stream. -/
def isRead : Action → Bool
  | .ingest _ => true
  | @Action.poll _ _ _ => true
  | _ => false

/-- The chunk that an action takes, if it takes one. -/
def chunk? : Action → Option (List UInt8)
  | .ingest chunk => some chunk
  | @Action.poll _ _ source => ByteSource.delivery? source
  | _ => none

theorem received_eq (a : Action) : a.received = a.chunk?.getD [] := by
  cases a <;> rfl

end Action

theorem perform_of_chunk?_eq_some {a : Action} {chunk : List UInt8} (h : a.chunk? = some chunk) :
    (m.perform a).1 = (m.ingest chunk).1 ∧ (m.perform a).2.1 = (m.ingest chunk).2 := by
  cases a with
  | ingest chunk' =>
      obtain rfl : chunk' = chunk := Option.some.inj h
      exact ⟨rfl, rfl⟩
  | poll source => exact poll_of_delivery?_eq_some h
  | _ => simp [Action.chunk?] at h

/-- A read that takes nothing does nothing. -/
theorem perform_of_chunk?_eq_none {a : Action} (hr : a.isRead = true) (h : a.chunk? = none) :
    (m.perform a).1 = m ∧ (m.perform a).2.1 = [] := by
  cases a with
  | ingest chunk => simp [Action.chunk?] at h
  | poll source => exact poll_of_delivery?_eq_none h
  | _ => simp [Action.isRead] at hr

theorem length_pending_perform_le (m : Monitor) (a : Action) :
    (m.perform a).1.pending.length ≤ m.pending.length + a.received.length := by
  have h := congrArg List.length (m.bytes_perform a)
  simp only [List.length_append] at h
  omega

/-- A monitor never holds more bytes than it had and was handed in all. -/
theorem length_buffered_le {as : List Action} {s : Step} (hs : s ∈ m.steps as) :
    s.before.pending.length + s.action.received.length ≤
      m.pending.length + (as.flatMap Action.received).length := by
  induction as generalizing m with
  | nil => simp at hs
  | cons a as ih =>
      rw [List.flatMap_cons, List.length_append]
      rcases List.mem_cons.mp hs with rfl | hs
      · simp only
        omega
      · have hrest := ih hs
        have hstep := m.length_pending_perform_le a
        omega

end Monitor

end LinkMonitor
