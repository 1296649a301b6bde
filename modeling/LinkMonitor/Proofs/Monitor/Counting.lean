import LinkMonitor.Proofs.Monitor.Ledger
import Mathlib.Algebra.Group.Defs

/-!
# Counters that nobody reads

The counters of a monitor are written and never read.  So they can be put forward at any time, as
if somebody had credited the monitor with some counts, and nothing else comes of it: every action
reports, gives back and leaves pending the same, and the credit is still there afterwards
(`perform_credit`).  Handling segments, which is all that moves a counter, is itself such a credit
(`handleAll_eq_credit`).
-/

namespace LinkMonitor

attribute [ext] Stats

namespace Stats

instance : Zero Stats := ⟨{}⟩

instance : Add Stats where
  add a b :=
    { messages := a.messages + b.messages
      unrecognizedBytes := a.unrecognizedBytes + b.unrecognizedBytes
      lengthMismatches := a.lengthMismatches + b.lengthMismatches }

variable (a b : Stats)

@[simp] theorem messages_zero : (0 : Stats).messages = 0 := rfl

@[simp] theorem unrecognizedBytes_zero : (0 : Stats).unrecognizedBytes = 0 := rfl

@[simp] theorem lengthMismatches_zero : (0 : Stats).lengthMismatches = 0 := rfl

@[simp] theorem messages_add : (a + b).messages = a.messages + b.messages := rfl

@[simp] theorem unrecognizedBytes_add :
    (a + b).unrecognizedBytes = a.unrecognizedBytes + b.unrecognizedBytes := rfl

@[simp] theorem lengthMismatches_add :
    (a + b).lengthMismatches = a.lengthMismatches + b.lengthMismatches := rfl

instance : AddCommMonoid Stats where
  add_assoc a b c := by ext <;> simp [Nat.add_assoc]
  zero_add a := by ext <;> simp
  add_zero a := by ext <;> simp
  add_comm a b := by ext <;> simp [Nat.add_comm]
  nsmul := nsmulRec

end Stats

namespace Registry

/-- What a segment counts for.  A message of an unknown header is passed over. -/
def count (r : Registry) : Segment → Stats
  | .message message =>
    match r.format? message.header with
    | none => 0
    | some f =>
      { messages := 1
        lengthMismatches := if message.data.length = f.length.toNat then 0 else 1 }
  | .unrecognized _ => { unrecognizedBytes := 1 }

/-- What segments count for together. -/
def countAll (r : Registry) (ss : List Segment) : Stats := (ss.map r.count).sum

end Registry

namespace Monitor

variable {m : Monitor}

/-- The monitor with its counters put forward. -/
def credit (m : Monitor) (d : Stats) : Monitor := { m with stats := m.stats + d }

@[simp] theorem credit_zero (m : Monitor) : m.credit 0 = m := by
  simp [credit]

theorem credit_credit (m : Monitor) (d e : Stats) : (m.credit d).credit e = m.credit (d + e) := by
  simp [credit, add_assoc]

theorem credit_comm (m : Monitor) (d e : Stats) :
    (m.credit d).credit e = (m.credit e).credit d := by
  rw [credit_credit, credit_credit, add_comm]

/-! ## Segments -/

theorem handle_eq_credit (m : Monitor) (s : Segment) :
    (m.handle s).1 = m.credit (m.registry.count s) := by
  cases s with
  | message message =>
      cases h : m.registry.format? message.header with
      | none => simp [handle, receive, Registry.count, h]
      | some f =>
          simp only [handle, receive, Registry.count, h]
          rfl
  | unrecognized b => rfl

/-- Handling segments is crediting the monitor with what they count for. -/
theorem handleAll_eq_credit (m : Monitor) (ss : List Segment) :
    (m.handleAll ss).1 = m.credit (m.registry.countAll ss) := by
  induction ss generalizing m with
  | nil => simp [handleAll, Registry.countAll]
  | cons s ss ih =>
      rw [handleAll_cons, ih, handle_registry, handle_eq_credit, credit_credit]
      simp [Registry.countAll]

theorem handleAll_credit (m : Monitor) (d : Stats) (ss : List Segment) :
    (m.credit d).handleAll ss = ((m.handleAll ss).1.credit d, (m.handleAll ss).2) := by
  refine Prod.ext ?_ ?_
  · calc
      ((m.credit d).handleAll ss).1
      _ = (m.credit d).credit (m.registry.countAll ss) := handleAll_eq_credit ..
      _ = (m.handleAll ss).1.credit d := by rw [credit_comm, handleAll_eq_credit]
  · rw [events_handleAll, events_handleAll]
    rfl

/-! ## Actions -/

theorem ingest_credit (m : Monitor) (d : Stats) (chunk : List UInt8) :
    (m.credit d).ingest chunk = ((m.ingest chunk).1.credit d, (m.ingest chunk).2) := by
  rw [ingest_eq_handleAll, ingest_eq_handleAll]
  exact handleAll_credit (m.absorb chunk) d _

theorem poll_credit {σ : Type} [ByteSource σ] (m : Monitor) (d : Stats) (s : σ) :
    (m.credit d).poll s = ((m.poll s).1.credit d, (m.poll s).2) :=
  poll_comm (f := (·.credit d)) (m.ingest_credit d) s

theorem submit_credit (m : Monitor) (d : Stats) (input : String) :
    (m.credit d).submit input = ((m.submit input).1.credit d, (m.submit input).2) := by
  unfold submit
  split
  · rfl
  · simp only [handleAll_credit]
    rfl

/-- No action reads the counters. -/
theorem perform_credit (m : Monitor) (d : Stats) (a : Action) :
    (m.credit d).perform a = ((m.perform a).1.credit d, (m.perform a).2) := by
  cases a with
  | ingest chunk => simp only [perform, ingest_credit]
  | poll source => simp only [perform, poll_credit]
  | submit input => simp only [perform, submit_credit]
  | close => rfl
  | edit change => rfl

theorem run_credit (m : Monitor) (d : Stats) (as : List Action) :
    (m.credit d).run as = ((m.run as).1.credit d, (m.run as).2) := by
  induction as generalizing m with
  | nil => rfl
  | cons a as ih => rw [run_cons, run_cons, perform_credit, ih]

end Monitor

end LinkMonitor
