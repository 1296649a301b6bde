import LinkMonitor.Command.Setup
import LinkMonitor.Proofs.Files.Paths

/-!
# What commands look up first

Settings and catalogs come from files.  Two trees that have the same files for the catalogs give
the same registry with the same notes (`SameCatalogs.registry_eq`), whatever the chunk size is that
the settings name besides.
-/

namespace LinkMonitor

namespace Setup

variable {t t' : FileTree} {s s' : Settings} {path : String}

/-! ## Files -/

theorem requireFile_congr (h : t.find path = t'.find path) :
    requireFile t path = requireFile t' path := by
  unfold requireFile FileTree.exists? FileTree.isFile
  rw [h]

theorem load_congr (h : t.find path = t'.find path) : Table.load t path = Table.load t' path := by
  unfold Table.load FileTree.read
  rw [h]

/-! ## Settings -/

/-- A chunk size that is given with the command is the one in force. -/
theorem settings_chunkSize {catalogs : CatalogOptions} {size : Option Nat}
    (h : settings t catalogs size = .ok s) (n : Nat) :
    settings t catalogs (some n) = .ok { s with chunkSize := n } := by
  cases hc : catalogs.config with
  | none =>
      simp only [settings, hc] at h ⊢
      cases h
      rfl
  | some path =>
      simp only [settings, hc, bind_eq_ok_iff] at h ⊢
      obtain ⟨_, hf, config, hl, h⟩ := h
      cases h
      exact ⟨_, hf, config, hl, rfl⟩

/-! ## Catalogs -/

/-- Settings that differ in the chunk size at most, in two trees that have the same files for the
catalogs. -/
structure SameCatalogs (t : FileTree) (s : Settings) (t' : FileTree) (s' : Settings) : Prop where
  settings : s' = { s with chunkSize := s'.chunkSize }
  files {path : String} : path ∈ s.siteCatalog.toList ++ s.companySources →
    t.find path = t'.find path

namespace SameCatalogs

theorem siteRegistry_eq (h : SameCatalogs t s t' s') : siteRegistry t s = siteRegistry t' s' := by
  rw [h.settings]
  simp only [siteRegistry]
  cases hs : s.siteCatalog with
  | none => rfl
  | some path =>
      have hfind : t.find path = t'.find path := h.files (by simp [hs])
      simp only [requireFile_congr hfind, load_congr hfind]

/-- The same catalogs are loaded, with the same notes. -/
theorem registry_eq (h : SameCatalogs t s t' s') : registry t s = registry t' s' := by
  have hcompany : s'.companySources = s.companySources := by rw [h.settings]
  have hsources : (s.companySources.map fun path ↦ Provider.ofTable path (Table.load t path)) =
      s.companySources.map fun path ↦ Provider.ofTable path (Table.load t' path) := by
    refine List.map_congr_left fun path hp ↦ ?_
    rw [load_congr (h.files (List.mem_append_right _ hp))]
  simp only [registry, h.siteRegistry_eq, hcompany, hsources]

end SameCatalogs

end Setup

end LinkMonitor
