import LinkMonitor.Registry.Refresh

/-!
# Changes of a registry

A registry is changed in seven ways, two of which replace a catalog.  `Edit` lists them, so that
what holds of any change, or of any number of changes in any order, can be said.
-/

namespace LinkMonitor

namespace Registry

/-- A change of a registry. -/
inductive Edit where
  | add (format : MessageFormat) (catalog : Catalog)
  | remove (selector : Selector) (catalog : Catalog)
  | replace (formats : List MessageFormat) (catalog : Catalog)
  | refresh (providers : List Provider)
  /-- Grants the privilege of an administrator, or takes it away. -/
  | grant (administrator : Bool)

/-- What a change gives back. -/
inductive Edit.Reply where
  | done
  | added (result : Except RegistryError Unit)
  | removed (found : Bool)
  | refreshed (result : Except ProvisionError Nat)

/-- Changes a registry. -/
def edit (r : Registry) : Edit → Registry × List Event × Edit.Reply
  | .add f c =>
    let (after, result) := r.add f c
    (after, [], .added result)
  | .remove s c =>
    let (after, found) := r.remove s c
    (after, [], .removed found)
  | .replace fs c => (r.replace fs c, [], .done)
  | .refresh ps =>
    let (after, events, result) := r.refresh ps
    (after, events, .refreshed result)
  | .grant value => ({ r with administrator := value }, [], .done)

/-! ## Changes are reported by notes only -/

theorem isNote_of_mem_fetchAll {ps : List Provider} {e : Event}
    (he : e ∈ (Provider.fetchAll ps).1) : e.isNote = true := by
  induction ps with
  | nil => cases he
  | cons p ps ih =>
      cases hp : p.fetched with
      | error x =>
          obtain rfl : e = _ := by simpa [Provider.fetchAll_cons, hp] using he
          rfl
      | ok fs =>
          simp only [Provider.fetchAll_cons, hp, List.mem_cons] at he
          rcases he with rfl | he
          · rfl
          · exact ih he

theorem isNote_of_mem_refresh {r : Registry} {ps : List Provider} {e : Event}
    (he : e ∈ (r.refresh ps).2.1) : e.isNote = true := by
  have hfetched : e ∈ (Provider.fetchAll ps).1 → e.isNote = true := isNote_of_mem_fetchAll
  cases hp : (Provider.fetchAll ps).2 with
  | error x =>
      simp only [refresh_eq_conclude, conclude, hp, List.mem_cons] at he
      rcases he with rfl | he
      · rfl
      · exact hfetched he
  | ok fs =>
      simp only [refresh_eq_conclude, conclude, hp, List.cons_append, List.mem_cons,
        List.mem_append, List.not_mem_nil, or_false] at he
      rcases he with rfl | he | rfl
      · rfl
      · exact hfetched he
      · rfl

/-- No change of a registry reports a message or a byte. -/
theorem isNote_of_mem_edit {r : Registry} {x : Edit} {e : Event} (he : e ∈ (r.edit x).2.1) :
    e.isNote = true := by
  cases x with
  | add f c => simp [edit] at he
  | remove s c => simp [edit] at he
  | replace fs c => simp [edit] at he
  | refresh ps => exact isNote_of_mem_refresh he
  | grant value => simp [edit] at he

/-! ## Catalogs that may be changed, and entries that are picked -/

variable {r : Registry} {c : Catalog} {fs : List MessageFormat} {f : MessageFormat} {i j : Nat}

theorem list_replace_of_ne {c' : Catalog} (h : c' ≠ c) (fs : List MessageFormat) :
    (r.replace fs c').list c = r.list c := by
  cases c with
  | site =>
      cases c' with
      | site => exact absurd rfl h
      | company => rfl
  | company =>
      cases c' with
      | site => rfl
      | company => exact absurd rfl h

theorem permits_iff : r.permits c = true ↔ c = .site ∨ r.administrator = true := by
  cases c <;> simp [permits]

theorem place?_index_eq_some_iff : place? fs (.index i) = some j ↔ j = i ∧ i < fs.length := by
  by_cases h : i < fs.length <;> simp [place?, h, eq_comm]

theorem place?_index_eq_none_iff : place? fs (.index i) = none ↔ fs.length ≤ i := by
  simp [place?]

theorem place?_entry (fs : List MessageFormat) (f : MessageFormat) :
    place? fs (.entry f) = fs.idxOf? f := rfl

/-- An entry is deleted where it is found first. -/
theorem eraseIdx_of_place?_entry (h : place? fs (.entry f) = some i) :
    fs.eraseIdx i = fs.erase f := by
  rw [place?_entry] at h
  rw [List.erase_eq_eraseIdx, h]

theorem lt_length_of_place? {s : Selector} (h : place? fs s = some i) : i < fs.length := by
  cases s with
  | index j =>
      obtain ⟨rfl, hj⟩ := place?_index_eq_some_iff.mp h
      exact hj
  | entry f =>
      rw [place?_entry] at h
      exact (List.idxOf?_eq_some_iff.mp h).1

end Registry

end LinkMonitor
