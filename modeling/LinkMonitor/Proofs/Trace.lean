/-!
# Traces

What is driven by actions, one after another, comes through a state for each of them.  Its trace has
a step for every action: the state that the action finds, what it gives back, and the state that it
leaves behind.  What is said of all steps of all traces is said of every action at any point of any
run.
-/

namespace LinkMonitor

/-- What has been done at one point of a run. -/
structure Step (σ α ρ : Type) where
  before : σ
  action : α
  reply : ρ
  after : σ

variable {σ α ρ : Type} {perform : σ → α → σ × ρ} {s : σ} {as : List α}

/-- The steps of actions in a row, from the first state on. -/
def trace (perform : σ → α → σ × ρ) (s : σ) : List α → List (Step σ α ρ)
  | [] => []
  | a :: as => ⟨s, a, (perform s a).2, (perform s a).1⟩ :: trace perform (perform s a).1 as

/-- The state after actions in a row. -/
def stateAfter (perform : σ → α → σ × ρ) (s : σ) (as : List α) : σ :=
  as.foldl (fun s a ↦ (perform s a).1) s

@[simp] theorem trace_nil : trace perform s [] = [] := rfl

theorem trace_cons (a : α) :
    trace perform s (a :: as) =
      ⟨s, a, (perform s a).2, (perform s a).1⟩ :: trace perform (perform s a).1 as := rfl

@[simp] theorem stateAfter_nil : stateAfter perform s [] = s := rfl

theorem stateAfter_cons (a : α) :
    stateAfter perform s (a :: as) = stateAfter perform (perform s a).1 as := rfl

/-- The first actions of a run have the first steps of its trace. -/
theorem take_trace (n : Nat) : (trace perform s as).take n = trace perform s (as.take n) := by
  induction as generalizing s n with
  | nil => simp
  | cons a as ih =>
      cases n with
      | zero => rfl
      | succ n => rw [trace_cons, List.take_succ_cons, List.take_succ_cons, trace_cons, ih]

/-- What holds of every action in a state with a property that all actions preserve holds of every
step of a run from such a state. -/
theorem forall_mem_trace {P : σ → Prop} {Q : Step σ α ρ → Prop}
    (hP : ∀ s a, P s → P (perform s a).1)
    (hQ : ∀ s a, P s → Q ⟨s, a, (perform s a).2, (perform s a).1⟩) (hs : P s) :
    ∀ t ∈ trace perform s as, Q t := by
  induction as generalizing s with
  | nil => simp
  | cons a as ih =>
      rw [trace_cons, List.forall_mem_cons]
      exact ⟨hQ s a hs, ih (hP s a hs)⟩

/-- What every action preserves holds after a run. -/
theorem stateAfter_induction {P : σ → Prop} (hP : ∀ s a, P s → P (perform s a).1) (hs : P s) :
    P (stateAfter perform s as) := by
  induction as generalizing s with
  | nil => exact hs
  | cons a as ih => exact ih (hP s a hs)

/-- Where every action takes a beginning off what a state holds, the beginnings are what a run takes
off. -/
theorem flatMap_trace_append {β : Type} {taken : Step σ α ρ → List β} {held : σ → List β}
    (h : ∀ s a, taken ⟨s, a, (perform s a).2, (perform s a).1⟩ ++ held (perform s a).1 = held s) :
    (trace perform s as).flatMap taken ++ held (stateAfter perform s as) = held s := by
  induction as generalizing s with
  | nil => rfl
  | cons a as ih =>
      rw [trace_cons, List.flatMap_cons, List.append_assoc, stateAfter_cons, ih, h]

end LinkMonitor
