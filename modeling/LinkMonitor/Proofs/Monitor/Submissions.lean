import LinkMonitor.Proofs.Monitor.Agreement
import LinkMonitor.Proofs.Monitor.Counting
import LinkMonitor.Proofs.Monitor.Steps

/-!
# Typed bytes beside the stream

Typed bytes are a message of their own.  They share the registry, the counters and the reports with
the stream, and still they do not disturb it.  To say so, a run with typed bytes anywhere in it is
compared with the run of its other actions alone (`shown_steps_filter`).

All that a submission leaves behind is a credit (`submit_eq_credit`), and no action notices a credit
(`perform_credit`).  So the two runs stay side by side, with the same registry and the same pending
bytes, and drift apart only by what the typed bytes have counted for so far.
-/

namespace LinkMonitor

namespace Registry

variable {r : Registry}

/-- What typed bytes are taken for: a message if a known header is at their front, and bytes of no
frame otherwise. -/
def typed (r : Registry) (bytes : List UInt8) : List Segment :=
  match bytes with
  | high :: low :: data =>
    if (r.format? ⟨high, low⟩).isSome then [.message ⟨⟨high, low⟩, data⟩]
    else bytes.map .unrecognized
  | _ => bytes.map .unrecognized

/-- What typed bytes count for. -/
def tally (r : Registry) (bytes : List UInt8) : Stats :=
  match bytes with
  | high :: low :: data =>
    match r.format? ⟨high, low⟩ with
    | some f =>
      { messages := 1
        lengthMismatches := if data.length = f.length.toNat then 0 else 1 }
    | none => { unrecognizedBytes := bytes.length }
  | _ => { unrecognizedBytes := bytes.length }

/-- What a submission counts for: nothing, unless the text spells bytes. -/
def contribution (r : Registry) (input : String) : Stats :=
  match HexInput.parse input with
  | .ok bytes => r.tally bytes
  | .error _ => 0

theorem typed_header {h : Header} {f : MessageFormat} (hf : r.format? h = some f)
    (data : List UInt8) : r.typed (h.bytes ++ data) = [.message ⟨h, data⟩] := by
  have hsome : (r.format? ⟨h.high, h.low⟩).isSome = true := by
    rw [show r.format? ⟨h.high, h.low⟩ = some f from hf]
    rfl
  simp only [Header.bytes, List.cons_append, List.nil_append, typed, if_pos hsome]

theorem typed_noise {high low : UInt8} (hf : r.format? ⟨high, low⟩ = none) (data : List UInt8) :
    r.typed (high :: low :: data) = (high :: low :: data).map .unrecognized := by
  simp only [typed, hf, Option.isSome_none, Bool.false_eq_true, if_false]

theorem countAll_map_unrecognized (r : Registry) (bytes : List UInt8) :
    r.countAll (bytes.map .unrecognized) = { unrecognizedBytes := bytes.length } := by
  induction bytes with
  | nil => rfl
  | cons b bytes ih =>
      rw [countAll] at ih
      rw [countAll, List.map_cons, List.map_cons, List.sum_cons, ih]
      ext <;> simp [count, Nat.add_comm]

theorem countAll_typed (r : Registry) (bytes : List UInt8) :
    r.countAll (r.typed bytes) = r.tally bytes := by
  match bytes with
  | [] => rfl
  | [b] => exact r.countAll_map_unrecognized [b]
  | high :: low :: data =>
      cases hf : r.format? ⟨high, low⟩ with
      | none =>
          rw [typed_noise hf, countAll_map_unrecognized]
          simp only [tally, hf]
      | some f =>
          have ht := typed_header hf data
          simp only [Header.bytes, List.cons_append, List.nil_append] at ht
          simp [ht, countAll, count, tally, hf]

end Registry

namespace Monitor

variable {m : Monitor}

/-! ## Submissions -/

theorem submit_of_parse_eq_error {input : String} {e : HexInputError}
    (h : HexInput.parse input = .error e) : m.submit input = (m, [], .error e) := by
  simp only [submit, h]

theorem submit_of_parse_eq_ok {input : String} {bytes : List UInt8}
    (h : HexInput.parse input = .ok bytes) :
    m.submit input =
      ((m.handleAll (m.registry.typed bytes)).1, (m.handleAll (m.registry.typed bytes)).2,
        .ok ()) := by
  simp only [submit, h]
  rfl

/-- A submission does nothing to a monitor but credit it with what the typed bytes count for. -/
theorem submit_eq_credit (m : Monitor) (input : String) :
    (m.submit input).1 = m.credit (m.registry.contribution input) := by
  cases h : HexInput.parse input with
  | error e => simp only [submit_of_parse_eq_error h, Registry.contribution, h, credit_zero]
  | ok bytes =>
      simp only [submit_of_parse_eq_ok h, Registry.contribution, h, handleAll_eq_credit,
        Registry.countAll_typed]

/-- A text that spells no bytes is refused, and nothing happens. -/
theorem submit_of_reply_eq_error {input : String} {e : HexInputError}
    (h : (m.submit input).2.2 = .error e) : (m.submit input).1 = m ∧ (m.submit input).2.1 = [] := by
  cases hp : HexInput.parse input with
  | error e => simp [submit_of_parse_eq_error hp]
  | ok bytes => simp [submit_of_parse_eq_ok hp] at h

/-! ## Runs with and without them -/

def Action.isSubmit : Action → Bool
  | .submit _ => true
  | _ => false

namespace Step

/-- What a submission counts for in the place where it stands. -/
def contribution (s : Step) : Stats :=
  match s.action with
  | .submit input => s.before.registry.contribution input
  | _ => 0

/-- All that can be seen of a step but the counters: what it reports, what it gives back, and the
bytes and the catalogs that it leaves. -/
def shown (s : Step) : List Event × Reply × List UInt8 × Registry :=
  (s.events, s.reply, s.after.pending, s.after.registry)

theorem contribution_of_isSubmit_eq_false {s : Step} (h : s.action.isSubmit = false) :
    s.contribution = 0 := by
  obtain ⟨m, a⟩ := s
  cases a with
  | submit input => simp [Action.isSubmit] at h
  | _ => rfl

theorem after_of_isSubmit {s : Step} (h : s.action.isSubmit = true) :
    s.after = s.before.credit s.contribution := by
  obtain ⟨m, a⟩ := s
  cases a with
  | submit input => exact m.submit_eq_credit input
  | _ => simp [Action.isSubmit] at h

theorem of_reply_eq_error {s : Step} {e : HexInputError}
    (h : s.reply = .submitted (.error e)) : s.events = [] ∧ s.after = s.before := by
  obtain ⟨m, a⟩ := s
  cases a with
  | submit input =>
      have he : (m.submit input).2.2 = .error e := Reply.submitted.inj h
      obtain ⟨hm, hevents⟩ := submit_of_reply_eq_error he
      exact ⟨hevents, hm⟩
  | _ => simp [reply, perform] at h

end Step

/-- A credit before a run shows in none of its steps. -/
theorem shown_steps_credit (m : Monitor) (d : Stats) (as : List Action) :
    ((m.credit d).steps as).map Step.shown = (m.steps as).map Step.shown := by
  induction as generalizing m with
  | nil => rfl
  | cons a as ih =>
      have hstep : Step.shown ⟨m.credit d, a⟩ = Step.shown ⟨m, a⟩ := by
        simp only [Step.shown, Step.events, Step.reply, Step.after, perform_credit]
        rfl
      rw [steps_cons, steps_cons, List.map_cons, List.map_cons, hstep, perform_credit, ih]

/-- The other actions show the same as if nothing had been typed. -/
theorem shown_steps_filter (m : Monitor) (as : List Action) :
    ((m.steps as).filter (!·.action.isSubmit)).map Step.shown =
      (m.steps (as.filter (!·.isSubmit))).map Step.shown := by
  induction as generalizing m with
  | nil => rfl
  | cons a as ih =>
      cases ha : a.isSubmit with
      | true =>
          have hafter : (m.perform a).1 = m.credit (Step.contribution ⟨m, a⟩) :=
            Step.after_of_isSubmit (s := ⟨m, a⟩) ha
          simp only [steps_cons, List.filter_cons, ha, Bool.not_true, Bool.false_eq_true, if_false]
          rw [ih, hafter, shown_steps_credit]
      | false =>
          simp only [steps_cons, List.filter_cons, ha, Bool.not_false, if_true, List.map_cons]
          rw [ih]

/-- In the end the monitor has the credit for all typed bytes, and that is all. -/
theorem run_eq_credit (m : Monitor) (as : List Action) :
    (m.run as).1 =
      (m.run (as.filter (!·.isSubmit))).1.credit ((m.steps as).map Step.contribution).sum := by
  induction as generalizing m with
  | nil => simp
  | cons a as ih =>
      rw [run_cons, ih, steps_cons, List.map_cons, List.sum_cons]
      cases ha : a.isSubmit with
      | true =>
          have hafter : (m.perform a).1 = m.credit (Step.contribution ⟨m, a⟩) :=
            Step.after_of_isSubmit (s := ⟨m, a⟩) ha
          simp only [List.filter_cons, ha, Bool.not_true, Bool.false_eq_true, if_false]
          rw [hafter, run_credit, credit_credit]
      | false =>
          have hzero : Step.contribution ⟨m, a⟩ = 0 :=
            Step.contribution_of_isSubmit_eq_false (s := ⟨m, a⟩) ha
          simp only [List.filter_cons, ha, Bool.not_false, if_true, run_cons, hzero, zero_add]

/-- **Typed bytes do not disturb the stream.**  Whatever is typed in whichever places of a run, each
other action reports and gives back what it does when nothing is typed, and leaves the same pending
bytes and the same catalogs.  In the end the counters are those of the run without typed bytes, put
forward by what each submission counts for where it stands.  A submission that is refused reports
nothing and leaves the monitor as it was.  What a poll leaves of its source is the same for all
monitors, so the sources do not notice either. -/
theorem run_without_submissions (m : Monitor) (as : List Action) :
    ((m.steps as).filter (!·.action.isSubmit)).map Step.shown =
        (m.steps (as.filter (!·.isSubmit))).map Step.shown ∧
      (m.run as).1 =
        (m.run (as.filter (!·.isSubmit))).1.credit ((m.steps as).map Step.contribution).sum ∧
      (∀ s ∈ m.steps as, s.action.isSubmit = true → s.after = s.before.credit s.contribution) ∧
      (∀ s ∈ m.steps as, ∀ e, s.reply = .submitted (.error e) →
        s.events = [] ∧ s.after = s.before) ∧
      (∀ (m m' : Monitor) {σ : Type} [ByteSource σ] (s : σ), (m.poll s).2.1 = (m'.poll s).2.1) := by
  refine ⟨m.shown_steps_filter as, m.run_eq_credit as, ?_, ?_, fun m m' _ _ s ↦ m.source_poll m' s⟩
  · exact fun s _ h ↦ Step.after_of_isSubmit h
  · exact fun s _ e h ↦ Step.of_reply_eq_error h

/-- Half of a header is pending while a message of the same header is typed, with too little data,
and then a text that spells no bytes. -/
theorem run_without_submissions_in_a_frame :
    let m : Monitor := { registry := { site := [⟨⟨0x01, 0x02⟩, "Speed", 2, "g * 2 h"⟩] } }
    let before : List Action := [.ingest [0x01], .submit "01 02 05"]
    let refused : Step := ⟨(m.run before).1, .submit "0x1"⟩
    let as : List Action := before ++ [.submit "0x1", .ingest [0x02, 0x05, 0x00]]
    refused ∈ m.steps as ∧ refused.reply = .submitted (.error (.invalidToken 0 "0x1")) ∧
      refused.events = [] ∧ refused.after = refused.before ∧
      (m.run as).1 = (m.run [.ingest [0x01], .ingest [0x02, 0x05, 0x00]]).1.credit
        { messages := 1, lengthMismatches := 1 } := by
  intro m before refused as
  have hmem : refused ∈ m.steps as := List.mem_cons_of_mem _ (List.mem_cons_of_mem _
    (List.mem_cons_self ..))
  have hreply : refused.reply = .submitted (.error (.invalidToken 0 "0x1")) := rfl
  obtain ⟨-, hrun, -, hrefused, -⟩ := run_without_submissions m as
  obtain ⟨hevents, hafter⟩ := hrefused refused hmem _ hreply
  have hsum : ((m.steps as).map Step.contribution).sum =
      { messages := 1, lengthMismatches := 1 } := by decide +kernel
  exact ⟨hmem, hreply, hevents, hafter, hsum ▸ hrun⟩

end Monitor

end LinkMonitor
