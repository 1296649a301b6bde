import LinkMonitor.Proofs.Monitor.Runs
import LinkMonitor.Proofs.Registry.Agreement

/-!
# Monitors of registries that agree

What a monitor does is settled by the formats that its registry finds, and by nothing else about
the registry.  To say so, the registry of a monitor is exchanged for one that agrees with it
(`withRegistry`), and every operation is shown to commute with the exchange: it reports and gives
back the same, and the monitor afterwards is the same but for the exchanged registry.  As no
operation other than an edit touches the registry, the exchange is still of registries that agree
when the next operation begins, and runs follow by induction.
-/

namespace LinkMonitor

namespace Monitor

variable {m : Monitor} {r : Registry}

/-- The monitor with another registry. -/
def withRegistry (m : Monitor) (r : Registry) : Monitor := { m with registry := r }

/-! ## Operations -/

theorem receive_withRegistry (h : m.registry.Agree r) (message : Message) :
    (m.withRegistry r).receive message =
      ((m.receive message).1.withRegistry r, (m.receive message).2) := by
  have hf : r.format? message.header = m.registry.format? message.header := (h _).symm
  simp only [receive, withRegistry, hf]
  cases m.registry.format? message.header <;> rfl

theorem handle_withRegistry (h : m.registry.Agree r) (s : Segment) :
    (m.withRegistry r).handle s = ((m.handle s).1.withRegistry r, (m.handle s).2) := by
  cases s with
  | message message => exact receive_withRegistry h message
  | unrecognized b => rfl

theorem handleAll_withRegistry (h : m.registry.Agree r) (ss : List Segment) :
    (m.withRegistry r).handleAll ss =
      ((m.handleAll ss).1.withRegistry r, (m.handleAll ss).2) := by
  induction ss generalizing m with
  | nil => rfl
  | cons s ss ih =>
      have hrest : (m.handle s).1.registry.Agree r := by rwa [handle_registry]
      rw [handleAll_cons, handleAll_cons, handle_withRegistry h, ih hrest]

theorem ingest_withRegistry (h : m.registry.Agree r) (chunk : List UInt8) :
    (m.withRegistry r).ingest chunk =
      ((m.ingest chunk).1.withRegistry r, (m.ingest chunk).2) := by
  have hfeed : m.reassembler.feed r chunk = m.reassembler.feed m.registry chunk := by
    rw [Reassembler.feed, Reassembler.feed, h.segment_eq]
  have habsorb : (m.withRegistry r).absorb chunk = (m.absorb chunk).withRegistry r := by
    simp only [absorb, withRegistry, hfeed]
  calc
    (m.withRegistry r).ingest chunk
    _ = ((m.absorb chunk).withRegistry r).handleAll (m.reassembler.feed m.registry chunk).1 := by
        rw [ingest_eq_handleAll, habsorb, ← hfeed]
        rfl
    _ = ((m.ingest chunk).1.withRegistry r, (m.ingest chunk).2) :=
        handleAll_withRegistry (m := m.absorb chunk) h _

theorem poll_withRegistry {σ : Type} [ByteSource σ] (h : m.registry.Agree r) (s : σ) :
    (m.withRegistry r).poll s = ((m.poll s).1.withRegistry r, (m.poll s).2) :=
  poll_comm (f := (·.withRegistry r)) (ingest_withRegistry h) s

theorem submit_withRegistry (h : m.registry.Agree r) (input : String) :
    (m.withRegistry r).submit input = ((m.submit input).1.withRegistry r, (m.submit input).2) := by
  have hf (k : Header) : (m.withRegistry r).registry.format? k = m.registry.format? k := (h k).symm
  unfold submit
  split
  · rfl
  · simp only [hf, handleAll_withRegistry h]

/-! ## Runs -/

/-- Whether an action changes the registry. -/
def Action.isEdit : Action → Bool
  | .edit _ => true
  | _ => false

theorem perform_withRegistry (h : m.registry.Agree r) {a : Action} (ha : a.isEdit = false) :
    (m.withRegistry r).perform a = ((m.perform a).1.withRegistry r, (m.perform a).2) := by
  cases a with
  | ingest chunk => simp only [perform, ingest_withRegistry h]
  | poll source => simp only [perform, poll_withRegistry h]
  | submit input => simp only [perform, submit_withRegistry h]
  | close => rfl
  | edit change => simp [Action.isEdit] at ha

/-- Only edits touch the registry. -/
theorem perform_registry {a : Action} (ha : a.isEdit = false) :
    (m.perform a).1.registry = m.registry := by
  cases a with
  | ingest chunk => simp [perform, ingest_eq_handleAll, absorb]
  | @poll σ _ source =>
      cases h : ByteSource.delivery? source with
      | none => simp [perform, (poll_of_delivery?_eq_none (m := m) h).1]
      | some chunk =>
          simp [perform, (poll_of_delivery?_eq_some (m := m) h).1, ingest_eq_handleAll, absorb]
  | submit input =>
      simp only [perform, submit]
      split
      · rfl
      · simp
  | close => rfl
  | edit change => simp [Action.isEdit] at ha

/-- Agreeing registries may be exchanged before a run instead of after it. -/
theorem run_withRegistry (h : m.registry.Agree r) {as : List Action}
    (has : ∀ a ∈ as, a.isEdit = false) :
    (m.withRegistry r).run as = ((m.run as).1.withRegistry r, (m.run as).2) := by
  induction as generalizing m with
  | nil => rfl
  | cons a as ih =>
      obtain ⟨ha, has⟩ := List.forall_mem_cons.mp has
      have hrest : (m.perform a).1.registry.Agree r := by rwa [perform_registry ha]
      rw [run_cons, run_cons, perform_withRegistry h ha, ih hrest has]

/-- Two monitors show the same in a run: each action reports and gives back the same, and the
pending bytes and the counters are the same afterwards. -/
structure SameRun (m m' : Monitor) (as : List Action) : Prop where
  outputs : (m.run as).2 = (m'.run as).2
  pending : (m.run as).1.pending = (m'.run as).1.pending
  stats : (m.run as).1.stats = (m'.run as).1.stats

theorem sameRun_withRegistry (h : m.registry.Agree r) {as : List Action}
    (has : ∀ a ∈ as, a.isEdit = false) : m.SameRun (m.withRegistry r) as := by
  have hrun := run_withRegistry h has
  constructor <;> rw [hrun] <;> rfl

/-- **Only the formats of headers matter.**  Monitors that start with the same pending bytes and
counters, over registries that agree, show the same in every run without edits, and leave the same
of every source that they poll.  So nothing shows that a shadowed entry is removed from a catalog,
or that all entries of the company are moved behind those of the site. -/
theorem sameRun_of_agree {as : List Action} (has : ∀ a ∈ as, a.isEdit = false) :
    (∀ m m' : Monitor, m.registry.Agree m'.registry → m.pending = m'.pending →
      m.stats = m'.stats → m.SameRun m' as) ∧
    (∀ (m : Monitor) (c : Catalog) (i : Nat), m.registry.Shadowed c i →
      m.SameRun (m.withRegistry (m.registry.eraseAt c i)) as) ∧
    (∀ m : Monitor, m.SameRun (m.withRegistry m.registry.merged) as) ∧
    (∀ (m m' : Monitor) {σ : Type} [ByteSource σ] (s : σ), (m.poll s).2.1 = (m'.poll s).2.1) := by
  refine ⟨?_, ?_, ?_, fun m m' _ _ s ↦ m.source_poll m' s⟩
  · intro m m' hr hp hs
    have he : m' = m.withRegistry m'.registry := by
      obtain ⟨r, ⟨pending⟩, stats⟩ := m
      obtain ⟨r', ⟨pending'⟩, stats'⟩ := m'
      obtain rfl : pending = pending' := hp
      obtain rfl : stats = stats' := hs
      rfl
    rw [he]
    exact sameRun_withRegistry hr has
  · exact fun m c i h ↦ sameRun_withRegistry (Registry.agree_eraseAt h) has
  · exact fun m ↦ sameRun_withRegistry m.registry.agree_merged has

/-- An entry of the company is shadowed by one of the site.  Half of a header is pending, the frame
is completed by a chunk and a poll, and there is noise and a typed message besides. -/
theorem sameRun_without_shadowed_speed :
    let r : Registry :=
      { site := [⟨⟨0x01, 0x02⟩, "Speed", 2, "g"⟩, ⟨⟨0xAA, 0x55⟩, "Ping", 0, ""⟩]
        company := [⟨⟨0x01, 0x02⟩, "Velocity", 4, "f"⟩] }
    let m : Monitor := { registry := r, reassembler := ⟨[0x01]⟩ }
    let source : Replay := ⟨[0x01, 0xAA, 0x55, 0x01], 0, 3, true, by decide⟩
    let as : List Monitor.Action :=
      [.ingest [0x02, 0x05], .poll source, .submit "01 02 05", .close]
    (∀ a ∈ as, a.isEdit = false) ∧ r.Shadowed .company 0 ∧
      m.SameRun (m.withRegistry (r.eraseAt .company 0)) as := by
  intro r m source as
  have has : ∀ a ∈ as, a.isEdit = false := by simp [as, Action.isEdit]
  have hshadowed : r.Shadowed .company 0 :=
    ⟨⟨⟨0x01, 0x02⟩, "Velocity", 4, "f"⟩, rfl, ⟨⟨0x01, 0x02⟩, "Speed", 2, "g"⟩,
      by simp [r, Registry.searchedBefore], rfl⟩
  exact ⟨has, hshadowed, (sameRun_of_agree has).2.1 m .company 0 hshadowed⟩

end Monitor

end LinkMonitor
