import LinkMonitor.Registry.Refresh

/-!
# A refresh is all or nothing

A refresh asks providers one after another, and the first that fails ends it.  What has been fetched
before then is thrown away, and the registry is the one that there was (`refresh_all_or_nothing`).

What a refresh comes to does not tell who has been asked.  This is told by asking with an effect:
a list of those who have been asked shows that nobody is asked behind a provider that fails
(`askAll_asking_of_error`).
-/

namespace LinkMonitor

namespace Provider

variable {p : Provider} {ps before later : List Provider} {e : ProvisionError}

/-- Fetching does not fail. -/
def Answers (p : Provider) : Prop := ∃ fs, p.fetched = .ok fs

/-- What a provider that answers gives. -/
def formats (p : Provider) : List MessageFormat :=
  match p.fetched with
  | .ok fs => fs
  | .error _ => []

/-- The note on a provider that has answered. -/
def countNote (p : Provider) : Event :=
  .note (p.name ++ ": " ++ toString p.formats.length ++ " formats")

/-- The note on a provider that has failed. -/
def abortNote (e : ProvisionError) : Event :=
  .note ("company refresh aborted: " ++ e.message)

theorem Answers.fetched_eq (h : p.Answers) : p.fetched = .ok p.formats := by
  obtain ⟨fs, hfs⟩ := h
  rw [formats, hfs]

/-- Either all providers answer, or there is a first one that fails. -/
theorem answer_or_first_fails (ps : List Provider) :
    (∀ p ∈ ps, p.Answers) ∨
      ∃ before p later e, ps = before ++ p :: later ∧ (∀ q ∈ before, q.Answers) ∧
        p.fetched = .error e := by
  induction ps with
  | nil => exact .inl (by simp)
  | cons p ps ih =>
      cases hp : p.fetched with
      | error e => exact .inr ⟨[], p, ps, e, rfl, by simp, hp⟩
      | ok fs =>
          have hanswers : p.Answers := ⟨fs, hp⟩
          rcases ih with hall | ⟨before, q, later, e, rfl, hbefore, hq⟩
          · exact .inl (List.forall_mem_cons.mpr ⟨hanswers, hall⟩)
          · exact .inr ⟨p :: before, q, later, e, rfl,
              List.forall_mem_cons.mpr ⟨hanswers, hbefore⟩, hq⟩

/-! ## What is fetched -/

theorem fetchAll_cons_of_answers (h : p.Answers) :
    fetchAll (p :: ps) =
      (p.countNote :: (fetchAll ps).1, (fetchAll ps).2.map (p.formats ++ ·)) := by
  rw [fetchAll_cons, h.fetched_eq, countNote]

theorem fetchAll_cons_of_error (h : p.fetched = .error e) :
    fetchAll (p :: ps) = ([abortNote e], .error e) := by
  rw [fetchAll_cons, h, abortNote]

theorem fetchAll_of_answers (h : ∀ p ∈ ps, p.Answers) :
    fetchAll ps = (ps.map countNote, .ok (ps.flatMap formats)) := by
  induction ps with
  | nil => rfl
  | cons p ps ih =>
      obtain ⟨hp, hps⟩ := List.forall_mem_cons.mp h
      rw [fetchAll_cons_of_answers hp, ih hps]
      rfl

/-- The first provider that fails decides on what comes of all, whoever stands behind it. -/
theorem fetchAll_of_error (hbefore : ∀ q ∈ before, q.Answers) (hp : p.fetched = .error e) :
    fetchAll (before ++ p :: later) = (before.map countNote ++ [abortNote e], .error e) := by
  induction before with
  | nil => exact fetchAll_cons_of_error hp
  | cons q before ih =>
      obtain ⟨hq, hbefore⟩ := List.forall_mem_cons.mp hbefore
      rw [List.cons_append, fetchAll_cons_of_answers hq, ih hbefore]
      rfl

/-! ## Who is asked -/

/-- What a provider gives, with an entry in the list of those who have been asked. -/
def asking (p : Provider) : StateM (List Provider) (Except ProvisionError (List MessageFormat)) :=
  fun asked ↦ (p.fetched, asked ++ [p])

/-- Wherever asking has no effect, it comes to what is fetched. -/
theorem askAll_pure {m : Type → Type} [Monad m] [LawfulMonad m] (ps : List Provider) :
    askAll (m := m) (fun p ↦ pure p.fetched) ps = pure (fetchAll ps) := by
  induction ps with
  | nil => rfl
  | cons p ps ih =>
      rw [fetchAll_cons]
      cases hp : p.fetched with
      | error e => simp only [askAll, hp, pure_bind]
      | ok fs => simp only [askAll, hp, pure_bind, ih]

theorem askAll_asking_cons_of_answers (h : p.Answers) (asked : List Provider) :
    (askAll asking (p :: ps)).run asked =
      let rest := (askAll asking ps).run (asked ++ [p])
      ((p.countNote :: rest.1.1, rest.1.2.map (p.formats ++ ·)), rest.2) := by
  simp only [askAll, asking, StateT.run, bind, StateT.bind, h.fetched_eq]
  rfl

theorem askAll_asking_cons_of_error (h : p.fetched = .error e) (asked : List Provider) :
    (askAll asking (p :: ps)).run asked = (([abortNote e], .error e), asked ++ [p]) := by
  simp only [askAll, asking, StateT.run, bind, StateT.bind, h]
  rfl

/-- Every provider is asked if all of them answer. -/
theorem askAll_asking_of_answers (h : ∀ p ∈ ps, p.Answers) (asked : List Provider) :
    (askAll asking ps).run asked = (fetchAll ps, asked ++ ps) := by
  induction ps generalizing asked with
  | nil => rw [List.append_nil]; rfl
  | cons p ps ih =>
      obtain ⟨hp, hps⟩ := List.forall_mem_cons.mp h
      rw [askAll_asking_cons_of_answers hp, ih hps, fetchAll_cons_of_answers hp,
        List.append_assoc, List.singleton_append]

/-- Nobody is asked behind a provider that fails. -/
theorem askAll_asking_of_error (hbefore : ∀ q ∈ before, q.Answers) (hp : p.fetched = .error e)
    (asked : List Provider) :
    (askAll asking (before ++ p :: later)).run asked =
      (fetchAll (before ++ p :: later), asked ++ before ++ [p]) := by
  induction before generalizing asked with
  | nil =>
      rw [List.nil_append, askAll_asking_cons_of_error hp, fetchAll_cons_of_error hp,
        List.append_nil]
  | cons q before ih =>
      obtain ⟨hq, hbefore⟩ := List.forall_mem_cons.mp hbefore
      rw [List.cons_append, askAll_asking_cons_of_answers hq, ih hbefore,
        fetchAll_cons_of_answers hq, List.append_assoc asked, List.singleton_append]

end Provider

namespace Registry

open Provider

variable {r : Registry} {ps : List Provider}

/-- Wherever asking has no effect, a refresh by asking is a refresh. -/
theorem refreshAsking_pure {m : Type → Type} [Monad m] [LawfulMonad m] (r : Registry)
    (ps : List Provider) :
    refreshAsking (m := m) (fun p ↦ pure p.fetched) r ps = pure (r.refresh ps) := by
  rw [refreshAsking, askAll_pure, pure_bind, refresh_eq_conclude]

theorem run_refreshAsking (r : Registry) (ps asked : List Provider) :
    (refreshAsking asking r ps).run asked =
      (r.conclude ((askAll asking ps).run asked).1, ((askAll asking ps).run asked).2) := rfl

theorem site_conclude (out : List Event × Except ProvisionError (List MessageFormat)) :
    (r.conclude out).1.site = r.site := by
  rcases out with ⟨events, e | fs⟩ <;> rfl

theorem administrator_conclude (out : List Event × Except ProvisionError (List MessageFormat)) :
    (r.conclude out).1.administrator = r.administrator := by
  rcases out with ⟨events, e | fs⟩ <;> rfl

theorem site_refresh (r : Registry) (ps : List Provider) : (r.refresh ps).1.site = r.site :=
  site_conclude (fetchAll ps)

theorem administrator_refresh (r : Registry) (ps : List Provider) :
    (r.refresh ps).1.administrator = r.administrator :=
  administrator_conclude (fetchAll ps)

/-- What a refresh comes to: the registry afterwards, the events and the result, and those who have
been asked. -/
inductive Refreshed (r : Registry) :
    List Provider → Registry × List Event × Except ProvisionError Nat → List Provider → Prop
  | /-- All answer.  Their lists, one behind the other, are the catalog of the company now. -/
    complete {ps : List Provider} : (∀ p ∈ ps, p.Answers) →
      Refreshed r ps
        ({ r with company := ps.flatMap Provider.formats },
          .note "company refresh started" :: ps.map countNote ++
            [.note ("company refresh complete: " ++ toString (ps.flatMap Provider.formats).length ++
              " formats loaded")],
          .ok (ps.flatMap Provider.formats).length)
        ps
  | /-- Some fail.  The first of them is the last who is asked, and nothing is changed. -/
    aborted {before later : List Provider} {p : Provider} {e : ProvisionError} :
      (∀ q ∈ before, q.Answers) → p.fetched = .error e →
      Refreshed r (before ++ p :: later)
        (r, .note "company refresh started" :: before.map countNote ++ [abortNote e], .error e)
        (before ++ [p])

theorem refreshed_refresh (r : Registry) (ps : List Provider) :
    ∃ asked, (refreshAsking asking r ps).run [] = (r.refresh ps, asked) ∧
      r.Refreshed ps (r.refresh ps) asked := by
  rcases answer_or_first_fails ps with hall | ⟨before, p, later, e, rfl, hbefore, hp⟩
  · refine ⟨ps, ?_, ?_⟩
    · rw [run_refreshAsking, askAll_asking_of_answers hall, List.nil_append]
      rfl
    · rw [refresh_eq_conclude, fetchAll_of_answers hall]
      exact .complete hall
  · refine ⟨before ++ [p], ?_, ?_⟩
    · rw [run_refreshAsking, askAll_asking_of_error hbefore hp, List.nil_append]
      rfl
    · rw [refresh_eq_conclude, fetchAll_of_error hbefore hp]
      exact .aborted hbefore hp

/-- A header that an entry of the site has is looked up without regard to the company. -/
theorem lookup_eq_of_site_eq {r' : Registry} (hsite : r'.site = r.site) {h : Header}
    (hh : h ∈ r.site.map (·.header)) : r'.lookup h = r.lookup h := by
  obtain ⟨f, hf, rfl⟩ := List.mem_map.mp hh
  have hsome : (r.find? f.header .site).isSome = true := by
    rw [find?, Option.isSome_map, List.find?_isSome]
    exact ⟨f, hf, by simp⟩
  have hfind : r'.find? f.header .site = r.find? f.header .site := by
    simp only [find?, list, hsite]
  rw [lookup, lookup, hfind, Option.or_of_isSome hsome, Option.or_of_isSome hsome]

/-- **A refresh is all or nothing.**  Either all providers answer, and their lists in order become
the catalog of the company; or the first that fails ends it, nobody behind it is asked, and the
registry is as before.  The notes tell which providers have answered, and how it ended.  Neither way
touches the catalog of the site, the privilege, or the lookup of a header that the site knows.  A
refresh comes to the same in any monad in which asking a provider has no effect. -/
theorem refresh_all_or_nothing (r : Registry) (ps : List Provider) :
    (∃ asked, (refreshAsking asking r ps).run [] = (r.refresh ps, asked) ∧
      r.Refreshed ps (r.refresh ps) asked) ∧
    (∀ {m : Type → Type} [Monad m] [LawfulMonad m],
      refreshAsking (m := m) (fun p ↦ pure p.fetched) r ps = pure (r.refresh ps)) ∧
    (r.refresh ps).1.site = r.site ∧ (r.refresh ps).1.administrator = r.administrator ∧
    ∀ h ∈ r.site.map (·.header), (r.refresh ps).1.lookup h = r.lookup h :=
  ⟨refreshed_refresh r ps, r.refreshAsking_pure ps, site_refresh r ps,
    administrator_refresh r ps, fun _ ↦ lookup_eq_of_site_eq (site_refresh r ps)⟩

/-- The second of three providers fails.  The third is not asked, and the list of the first is
dropped. -/
theorem refresh_all_or_nothing_aborted :
    let speed : MessageFormat := ⟨⟨0x01, 0x02⟩, "Speed", 2, "g * 2 h"⟩
    let door : MessageFormat := ⟨⟨0x01, 0x02⟩, "Door", 0, ""⟩
    let r : Registry := { site := [speed], company := [door] }
    let ps : List Provider := [⟨"depot", .ok [door, door]⟩,
      ⟨"mirror", .error (.provider "mirror" "unreachable")⟩, ⟨"archive", .ok [speed]⟩]
    (refreshAsking asking r ps).run [] =
      ((r, [.note "company refresh started", .note "depot: 2 formats",
        .note "company refresh aborted: provider 'mirror' failed: unreachable"],
        .error (.provider "mirror" "unreachable")), ps.take 2) ∧
      door.header ∈ r.site.map (·.header) ∧
      (r.refresh ps).1.lookup door.header = some (speed, .site) := by
  intro speed door r ps
  have hdoor : door.header ∈ r.site.map (·.header) := by simp [r, speed, door]
  have hbefore : ∀ p ∈ ps.take 1, p.Answers := by simp [ps, Answers]
  have hasked : (askAll asking ps).run [] = (fetchAll ps, ps.take 2) :=
    askAll_asking_of_error hbefore rfl []
  have hrefresh : r.refresh ps =
      (r, [.note "company refresh started", .note "depot: 2 formats",
        .note "company refresh aborted: provider 'mirror' failed: unreachable"],
        .error (.provider "mirror" "unreachable")) := by
    cbv
  obtain ⟨-, -, -, -, hlookup⟩ := refresh_all_or_nothing r ps
  refine ⟨?_, hdoor, hlookup door.header hdoor⟩
  rw [run_refreshAsking, hasked, ← refresh_eq_conclude, hrefresh]

end Registry

end LinkMonitor
