import LinkMonitor.Proofs.Registry.Edits
import LinkMonitor.Proofs.Registry.Refreshing
import LinkMonitor.Proofs.Trace

/-!
# Who may change which catalog

The entries of the company are changed one by one by an administrator only, while its catalog as a
whole is replaced by anybody.  The privilege may be granted and taken away at any point of a run, so
what counts is the one in force when a change is made.

`Responds` lists all that a change can come to.  From it follows what each step of a run keeps to
(`EditStep.Lawful`), and that a catalog is at every point what the changes that took effect make of
the list it was at first (`edits_within_privilege`).
-/

namespace LinkMonitor

namespace Registry

variable {r : Registry} {c : Catalog}

/-- Changes a registry and gives back the reply. -/
def respond (r : Registry) (e : Edit) : Registry × Edit.Reply :=
  ((r.edit e).1, (r.edit e).2.2)

theorem respond_add (h : r.permits c = true) (f : MessageFormat) :
    r.respond (.add f c) = (r.replace (r.list c ++ [f]) c, .added (.ok ())) := by
  simp [respond, edit, add_of_permits h]

theorem respond_add_refused (h : r.permits c = false) (f : MessageFormat) :
    r.respond (.add f c) = (r, .added (.error (.administratorRequired c))) := by
  simp [respond, edit, add_of_not_permits h]

theorem respond_remove {x : Selector} {i : Nat} (h : r.permits c = true)
    (hi : place? (r.list c) x = some i) :
    r.respond (.remove x c) = (r.replace ((r.list c).eraseIdx i) c, .removed true) := by
  simp [respond, edit, remove_of_place?_eq_some h hi]

theorem respond_remove_nothing {x : Selector}
    (h : r.permits c = false ∨ place? (r.list c) x = none) :
    r.respond (.remove x c) = (r, .removed false) := by
  simp [respond, edit, remove_eq_false h]

/-! ## Steps -/

/-- A change at some point of a run. -/
abbrev EditStep : Type := Step Registry Edit Edit.Reply

/-- The steps of changes in a row. -/
def history (r : Registry) (es : List Edit) : List EditStep := trace respond r es

/-- The registry after changes in a row. -/
def editAll (r : Registry) (es : List Edit) : Registry := stateAfter respond r es

/-- The step of a change that a registry goes through. -/
def editStep (r : Registry) (e : Edit) : EditStep := ⟨r, e, (r.respond e).2, (r.respond e).1⟩

/-- All steps that there are. -/
inductive EditStep.Occurs : EditStep → Prop
  | /-- An entry is appended to a catalog that may be changed. -/
    added {r : Registry} {f : MessageFormat} {c : Catalog} : r.permits c = true →
      Occurs ⟨r, .add f c, .added (.ok ()), r.replace (r.list c ++ [f]) c⟩
  | /-- No entry is appended without the privilege. -/
    addRefused {r : Registry} {f : MessageFormat} {c : Catalog} : r.permits c = false →
      Occurs ⟨r, .add f c, .added (.error (.administratorRequired c)), r⟩
  | /-- The entry that is picked is removed from a catalog that may be changed. -/
    removed {r : Registry} {x : Selector} {c : Catalog} {i : Nat} : r.permits c = true →
      place? (r.list c) x = some i →
      Occurs ⟨r, .remove x c, .removed true, r.replace ((r.list c).eraseIdx i) c⟩
  | /-- Nothing is removed without the privilege, or if no entry is picked. -/
    notRemoved {r : Registry} {x : Selector} {c : Catalog} :
      r.permits c = false ∨ place? (r.list c) x = none →
      Occurs ⟨r, .remove x c, .removed false, r⟩
  | /-- A catalog is replaced. -/
    replaced {r : Registry} {fs : List MessageFormat} {c : Catalog} :
      Occurs ⟨r, .replace fs c, .done, r.replace fs c⟩
  | /-- All providers answer, and the catalog of the company is replaced. -/
    refreshed {r : Registry} {ps : List Provider} : (∀ p ∈ ps, p.Answers) →
      Occurs ⟨r, .refresh ps, .refreshed (.ok (ps.flatMap Provider.formats).length),
        r.replace (ps.flatMap Provider.formats) .company⟩
  | /-- A provider fails. -/
    notRefreshed {r : Registry} {ps : List Provider} {e : ProvisionError} :
      (∃ p ∈ ps, ¬ p.Answers) → Occurs ⟨r, .refresh ps, .refreshed (.error e), r⟩
  | /-- The privilege is granted or taken away. -/
    granted {r : Registry} {value : Bool} :
      Occurs ⟨r, .grant value, .done, { r with administrator := value }⟩

theorem occurs_editStep (r : Registry) (e : Edit) : (r.editStep e).Occurs := by
  cases e with
  | add f c =>
      cases h : r.permits c with
      | true => rw [editStep, respond_add h]; exact .added h
      | false => rw [editStep, respond_add_refused h]; exact .addRefused h
  | remove x c =>
      cases h : r.permits c with
      | true =>
          cases hi : place? (r.list c) x with
          | some i => rw [editStep, respond_remove h hi]; exact .removed h hi
          | none => rw [editStep, respond_remove_nothing (.inr hi)]; exact .notRemoved (.inr hi)
      | false => rw [editStep, respond_remove_nothing (.inl h)]; exact .notRemoved (.inl h)
  | replace fs c => exact .replaced
  | refresh ps =>
      have hstep : r.editStep (.refresh ps) =
          ⟨r, .refresh ps, .refreshed (r.refresh ps).2.2, (r.refresh ps).1⟩ := rfl
      rw [hstep]
      obtain ⟨asked, -, h⟩ := refreshed_refresh r ps
      generalize r.refresh ps = out at h
      cases h with
      | complete hall => exact .refreshed hall
      | @aborted before later p e hbefore hp =>
          refine .notRefreshed ⟨p, by simp, ?_⟩
          rintro ⟨fs, hfs⟩
          rw [hp] at hfs
          cases hfs
  | grant value => exact .granted

/-! ## What steps do to lists -/

/-- A reply that tells of a change that took effect. -/
def Edit.Reply.isSuccess : Edit.Reply → Bool
  | .done => true
  | .added result => result.isOk
  | .removed found => found
  | .refreshed result => result.isOk

/-- What can be done to a list of formats. -/
inductive Revision where
  | append (format : MessageFormat)
  | deleteAt (i : Nat)
  /-- Deletes the first entry that equals a format. -/
  | deleteFirst (format : MessageFormat)
  | replace (formats : List MessageFormat)

def Revision.apply (fs : List MessageFormat) : Revision → List MessageFormat
  | .append f => fs ++ [f]
  | .deleteAt i => fs.eraseIdx i
  | .deleteFirst f => fs.erase f
  | .replace fs' => fs'

/-- The catalog that a change is about, and what it does to the list if it takes effect. -/
def Edit.revision? : Edit → Option (Catalog × Revision)
  | .add f c => some (c, .append f)
  | .remove (.index i) c => some (c, .deleteAt i)
  | .remove (.entry f) c => some (c, .deleteFirst f)
  | .replace fs c => some (c, .replace fs)
  | .refresh ps => some (.company, .replace (ps.flatMap Provider.formats))
  | .grant _ => none

namespace EditStep

variable {s : EditStep}

/-- What a step has done to the list of a catalog, if it has taken effect on it. -/
def revision? (c : Catalog) (s : EditStep) : Option Revision :=
  match s.action.revision? with
  | some (c', v) => if s.reply.isSuccess ∧ c' = c then some v else none
  | none => none

/-- The list of a catalog before a step, with what the step has done to it. -/
def revised (s : EditStep) (c : Catalog) : List MessageFormat :=
  match s.revision? c with
  | some v => v.apply (s.before.list c)
  | none => s.before.list c

theorem list_after_of_revision {c' : Catalog} {v : Revision} (hs : s.reply.isSuccess = true)
    (hv : s.action.revision? = some (c', v))
    (ha : s.after = s.before.replace (v.apply (s.before.list c')) c') (c : Catalog) :
    s.after.list c = s.revised c := by
  by_cases hc : c' = c
  · subst hc
    simp [revised, revision?, hv, hs, ha]
  · simp [revised, revision?, hv, hc, ha, list_replace_of_ne hc]

theorem list_after_of_not_success (hs : s.reply.isSuccess = false) (ha : s.after = s.before)
    (c : Catalog) : s.after.list c = s.revised c := by
  have hnone : s.revision? c = none := by
    unfold revision?
    split
    · simp [hs]
    · rfl
  rw [revised, hnone, ha]

/-- A step does to a catalog what its change says if it takes effect, and nothing else. -/
theorem Occurs.list_after (h : s.Occurs) (c : Catalog) : s.after.list c = s.revised c := by
  cases h with
  | added hp => exact list_after_of_revision rfl rfl rfl c
  | addRefused hp => exact list_after_of_not_success rfl rfl c
  | @removed r x c' i hp hi =>
      cases x with
      | index j =>
          obtain ⟨rfl, -⟩ := place?_index_eq_some_iff.mp hi
          exact list_after_of_revision rfl rfl rfl c
      | entry f =>
          rw [eraseIdx_of_place?_entry hi]
          exact list_after_of_revision rfl rfl rfl c
  | notRemoved h => exact list_after_of_not_success rfl rfl c
  | replaced => exact list_after_of_revision rfl rfl rfl c
  | refreshed hall => exact list_after_of_revision rfl rfl rfl c
  | notRefreshed hp => exact list_after_of_not_success rfl rfl c
  | granted => cases c <;> rfl

end EditStep

/-! ## What steps keep to -/

/-- Whether a change takes effect: it is let through, and there is something to remove or nobody
fails to provide. -/
def Edit.Succeeds (r : Registry) : Edit → Prop
  | .add _ c => c = .site ∨ r.administrator = true
  | .remove (.index i) c => (c = .site ∨ r.administrator = true) ∧ i < (r.list c).length
  | .remove (.entry f) c => (c = .site ∨ r.administrator = true) ∧ f ∈ r.list c
  | .refresh ps => ∀ p ∈ ps, p.Answers
  | .replace _ _ | .grant _ => True

/-- The ways to change the catalog of the site. -/
inductive Edit.OnSite : Edit → Prop
  | add {f : MessageFormat} : OnSite (.add f .site)
  | remove {x : Selector} : OnSite (.remove x .site)
  | replace {fs : List MessageFormat} : OnSite (.replace fs .site)

/-- The registry with the privilege or without it. -/
def withAdministrator (r : Registry) (value : Bool) : Registry := { r with administrator := value }

/-- What a local change does, it does with the privilege and without it. -/
theorem respond_withAdministrator {e : Edit} (h : e.OnSite) (r : Registry) (value : Bool) :
    (r.withAdministrator value).respond e =
      ((r.respond e).1.withAdministrator value, (r.respond e).2) := by
  cases h with
  | add => rfl
  | replace => rfl
  | @remove x =>
      cases hi : place? (r.list .site) x with
      | some i =>
          have hi' : place? ((r.withAdministrator value).list .site) x = some i := hi
          rw [respond_remove rfl hi, respond_remove rfl hi']
          rfl
      | none =>
          have hi' : place? ((r.withAdministrator value).list .site) x = none := hi
          rw [respond_remove_nothing (.inr hi), respond_remove_nothing (.inr hi')]

namespace EditStep

variable {s : EditStep}

/-- The ways to change the catalog of the company. -/
inductive ChangesCompany (s : EditStep) : Prop
  | replaced {fs : List MessageFormat} : s.action = .replace fs .company → ChangesCompany s
  | refreshed {ps : List Provider} {n : Nat} : s.action = .refresh ps →
      s.reply = .refreshed (.ok n) → ChangesCompany s
  | added {f : MessageFormat} : s.action = .add f .company → s.before.administrator = true →
      ChangesCompany s
  | removed {x : Selector} : s.action = .remove x .company → s.before.administrator = true →
      ChangesCompany s

theorem Occurs.isSuccess_iff (h : s.Occurs) :
    s.reply.isSuccess = true ↔ s.action.Succeeds s.before := by
  cases h with
  | added hp => exact iff_of_true rfl (permits_iff.mp hp)
  | addRefused hp =>
      refine iff_of_false Bool.false_ne_true fun h ↦ ?_
      rw [permits_iff.mpr h] at hp
      cases hp
  | @removed r x c i hp hi =>
      refine iff_of_true rfl ?_
      cases x with
      | index j => exact ⟨permits_iff.mp hp, (place?_index_eq_some_iff.mp hi).2⟩
      | entry f =>
          exact ⟨permits_iff.mp hp, List.isSome_idxOf?.mp (by rw [← place?_entry, hi]; rfl)⟩
  | @notRemoved r x c hnot =>
      refine iff_of_false Bool.false_ne_true fun hsucceeds ↦ ?_
      have hp : r.permits c = true := by
        cases x with
        | index j => exact permits_iff.mpr hsucceeds.1
        | entry f => exact permits_iff.mpr hsucceeds.1
      rcases hnot with hnot | hnone
      · rw [hp] at hnot
        cases hnot
      · cases x with
        | index j => exact absurd (place?_index_eq_none_iff.mp hnone) (Nat.not_le.mpr hsucceeds.2)
        | entry f => exact absurd hsucceeds.2 (List.idxOf?_eq_none_iff.mp hnone)
  | replaced => exact iff_of_true rfl trivial
  | refreshed hall => exact iff_of_true rfl hall
  | notRefreshed hp =>
      obtain ⟨p, hp, hnot⟩ := hp
      exact iff_of_false Bool.false_ne_true fun h ↦ absurd (h p hp) hnot
  | granted => exact iff_of_true rfl trivial

/-- What every step keeps to. -/
structure Lawful (s : EditStep) : Prop where
  isSuccess_iff : s.reply.isSuccess = true ↔ s.action.Succeeds s.before
  changesCompany : s.after.company ≠ s.before.company → s.ChangesCompany
  /-- Without the privilege nothing is added for the company. -/
  add_refused {f : MessageFormat} : s.action = .add f .company → s.before.administrator = false →
    s.reply = .added (.error (.administratorRequired .company)) ∧ s.after = s.before
  /-- Without the privilege nothing of the company is removed. -/
  remove_refused {x : Selector} : s.action = .remove x .company → s.before.administrator = false →
    s.reply = .removed false ∧ s.after = s.before
  onSite : s.after.site ≠ s.before.site → s.action.OnSite
  /-- With the privilege or without it, the site does the same with its own catalog. -/
  respond_withAdministrator : s.action.OnSite → ∀ value,
    (s.before.withAdministrator value).respond s.action =
      (s.after.withAdministrator value, s.reply)
  /-- The privilege in force is the one that was granted last. -/
  administrator : s.after.administrator =
    match s.action with
    | .grant value => value
    | _ => s.before.administrator

theorem Occurs.changesCompany (h : s.Occurs) (hne : s.after.company ≠ s.before.company) :
    s.ChangesCompany := by
  cases h with
  | @added r f c hp =>
      cases c with
      | site => exact absurd rfl hne
      | company => exact .added rfl hp
  | @removed r x c i hp hi =>
      cases c with
      | site => exact absurd rfl hne
      | company => exact .removed rfl hp
  | @replaced r fs c =>
      cases c with
      | site => exact absurd rfl hne
      | company => exact .replaced rfl
  | refreshed hall => exact .refreshed rfl rfl
  | addRefused | notRemoved | notRefreshed | granted => exact absurd rfl hne

theorem Occurs.onSite (h : s.Occurs) (hne : s.after.site ≠ s.before.site) : s.action.OnSite := by
  cases h with
  | @added r f c hp =>
      cases c with
      | site => exact .add
      | company => exact absurd rfl hne
  | @removed r x c i hp hi =>
      cases c with
      | site => exact .remove
      | company => exact absurd rfl hne
  | @replaced r fs c =>
      cases c with
      | site => exact .replace
      | company => exact absurd rfl hne
  | refreshed | addRefused | notRemoved | notRefreshed | granted => exact absurd rfl hne

theorem Occurs.administrator_after (h : s.Occurs) :
    s.after.administrator =
      match s.action with
      | .grant value => value
      | _ => s.before.administrator := by
  cases h with
  | granted => rfl
  | added | removed | replaced | refreshed => exact administrator_replace _
  | addRefused | notRemoved | notRefreshed => rfl

end EditStep

theorem lawful_editStep (r : Registry) (e : Edit) : (r.editStep e).Lawful where
  isSuccess_iff := (r.occurs_editStep e).isSuccess_iff
  changesCompany := (r.occurs_editStep e).changesCompany
  add_refused := by
    intro f he ha
    obtain rfl : e = .add f .company := he
    rw [editStep, respond_add_refused (show r.permits .company = false from ha)]
    exact ⟨rfl, rfl⟩
  remove_refused := by
    intro x he ha
    obtain rfl : e = .remove x .company := he
    rw [editStep, respond_remove_nothing (.inl (show r.permits .company = false from ha))]
    exact ⟨rfl, rfl⟩
  onSite := (r.occurs_editStep e).onSite
  respond_withAdministrator := fun h value ↦ respond_withAdministrator h r value
  administrator := (r.occurs_editStep e).administrator_after

/-! ## Runs -/

theorem history_cons (r : Registry) (e : Edit) (es : List Edit) :
    r.history (e :: es) = r.editStep e :: (r.respond e).1.history es := rfl

/-- A catalog is what the changes that took effect, in order, make of the list it was at first. -/
theorem list_editAll (r : Registry) (es : List Edit) (c : Catalog) :
    (r.editAll es).list c =
      ((r.history es).filterMap (EditStep.revision? c)).foldl Revision.apply (r.list c) := by
  induction es generalizing r with
  | nil => rfl
  | cons e es ih =>
      have hstep : (r.respond e).1.list c = (r.editStep e).revised c :=
        (r.occurs_editStep e).list_after c
      have hrest : (r.editAll (e :: es)).list c = ((r.respond e).1.editAll es).list c := rfl
      rw [hrest, ih, history_cons, hstep]
      cases hv : (r.editStep e).revision? c with
      | some v =>
          rw [List.filterMap_cons_some hv, List.foldl_cons, EditStep.revised, hv]
          rfl
      | none =>
          rw [List.filterMap_cons_none hv, EditStep.revised, hv]
          rfl

/-- **Edits keep within the privilege.**  However changes of a registry follow each other, every one
of them keeps to the rules: the catalog of the company changes only when it is replaced, when a
refresh succeeds, or when an entry is added or removed under the privilege; without the privilege
such an edit is refused and leaves everything as it was; the catalog of the site changes only when
it is replaced or edited itself, and the privilege makes no difference to that.  After any number of
changes each catalog is what those that took effect make of the list it was at first. -/
theorem edits_within_privilege (r : Registry) (es : List Edit) :
    (∀ s ∈ r.history es, s.Lawful) ∧
      ∀ (n : Nat) (c : Catalog), (r.editAll (es.take n)).list c =
        (((r.history es).take n).filterMap (EditStep.revision? c)).foldl Revision.apply
          (r.list c) := by
  refine ⟨forall_mem_trace (P := fun _ ↦ True) (fun _ _ _ ↦ trivial)
    (fun r e _ ↦ lawful_editStep r e) trivial, fun n c ↦ ?_⟩
  rw [list_editAll, history, history, take_trace]

/-- The privilege is granted, taken away, and granted again.  What is removed without it stays, and
of two equal entries one is removed under it. -/
theorem edits_within_privilege_revoked :
    let door : MessageFormat := ⟨⟨0x01, 0x02⟩, "Door", 0, ""⟩
    let r : Registry := {}
    let refused : EditStep :=
      ⟨{ company := [door, door] }, .remove (.entry door) .company, .removed false,
        { company := [door, door] }⟩
    let es : List Edit :=
      [.add door .company, .replace [door, door] .company, .remove (.entry door) .company,
        .grant true, .remove (.entry door) .company]
    refused ∈ r.history es ∧ refused.Lawful ∧
      (r.editAll (es.take 3)).list .company = [door, door] ∧
      (r.editAll (es.take 5)).list .company = [door] := by
  intro door r refused es
  obtain ⟨hlawful, hlists⟩ := edits_within_privilege r es
  have hrefused : refused ∈ r.history es := List.mem_of_getElem? (i := 2) rfl
  refine ⟨hrefused, hlawful _ hrefused, ?_, ?_⟩
  · rw [hlists]
    rfl
  · rw [hlists]
    rfl

end Registry

end LinkMonitor
