import LinkMonitor.Proofs.Stream.Chunks

/-!
# Registries that agree

Two registries agree if they have the same format for every header.  They may hold it in different
catalogs, and may hold any number of entries behind it that no search ever reaches.

`segment` asks a registry two questions, and only one of them is about the format of a header.  The
other one, whether some header begins with a byte, goes through all entries, shadowed ones too.  An
entry is shadowed by another one with the same header, so the answer does not change
(`Agree.startsHeader_eq`), and registries that agree cut every stream alike (`Agree.segment_eq`).
-/

namespace LinkMonitor

namespace Registry

variable {r r' : Registry}

/-- The registries have the same format for every header, in whichever catalog. -/
def Agree (r r' : Registry) : Prop := ∀ h, r.format? h = r'.format? h

namespace Agree

theorem startsHeader_eq (h : r.Agree r') (b : UInt8) : r.startsHeader b = r'.startsHeader b := by
  rw [Bool.eq_iff_iff, startsHeader_iff, startsHeader_iff]
  constructor
  · rintro ⟨l, hl⟩
    exact ⟨l, h ⟨b, l⟩ ▸ hl⟩
  · rintro ⟨l, hl⟩
    exact ⟨l, (h ⟨b, l⟩).symm ▸ hl⟩

/-- A stream is cut by what the registry knows of headers, and by nothing else. -/
theorem segment_eq (h : r.Agree r') (bs : List UInt8) : r.segment bs = r'.segment bs := by
  fun_induction segment r bs with
  | case1 => rw [segment_nil]
  | case2 b hb => rw [segment_singleton_pending (h.startsHeader_eq b ▸ hb)]
  | case3 b hb =>
      have hb' : r'.startsHeader b = false := by simpa [h.startsHeader_eq b] using hb
      rw [segment_singleton_noise hb']
  | case4 high low rest hf segments pending hs ih =>
      rw [segment_noise (h ⟨high, low⟩ ▸ hf), ← ih, hs]
  | case5 high low rest f hf size data hshort =>
      have hlt : rest.length < f.frameLength - Header.size := by
        simp only [size, data, List.length_take] at hshort
        omega
      rw [segment_short (h := ⟨high, low⟩) (h ⟨high, low⟩ ▸ hf) rest hlt]
  | case6 high low rest f hf size data hfull segments pending hs ih =>
      have hdata : data.length = f.frameLength - Header.size := by
        simp only [size, data, List.length_take] at hfull ⊢
        omega
      have hrest : high :: low :: rest = high :: low :: (data ++ rest.drop size) := by simp [data]
      rw [hrest, segment_frame (h := ⟨high, low⟩) (h ⟨high, low⟩ ▸ hf) hdata, ← ih, hs]

end Agree

/-! ## Entries that no search reaches -/

/-- The entries that a search sees before it comes to a place in a catalog. -/
def searchedBefore (r : Registry) : Catalog → Nat → List MessageFormat
  | .site, i => r.site.take i
  | .company, i => r.site ++ r.company.take i

/-- The entry at a place in a catalog comes behind another one with the same header. -/
def Shadowed (r : Registry) (c : Catalog) (i : Nat) : Prop :=
  ∃ f, (r.list c)[i]? = some f ∧ ∃ g ∈ r.searchedBefore c i, g.header = f.header

/-- The registry without the entry at a place in a catalog. -/
def eraseAt (r : Registry) (c : Catalog) (i : Nat) : Registry :=
  r.replace ((r.list c).eraseIdx i) c

/-- The registry with all entries in the catalog of the site, in the order in which they are
searched. -/
def merged (r : Registry) : Registry := { r with site := r.formats, company := [] }

/-- Registries that search the same entries in the same order agree. -/
theorem agree_of_formats_eq (h : r.formats = r'.formats) : r.Agree r' := by
  intro k
  rw [format?_eq_find?, format?_eq_find?, h]

theorem agree_merged (r : Registry) : r.Agree r.merged :=
  agree_of_formats_eq (by simp [formats, merged])

/-- A search does not notice an entry behind another one with the same header. -/
theorem find?_append_cons_of_mem {before after : List MessageFormat} {f g : MessageFormat}
    (hg : g ∈ before) (hgf : g.header = f.header) (h : Header) :
    (before ++ f :: after).find? (·.header = h) = (before ++ after).find? (·.header = h) := by
  rw [List.find?_append, List.find?_append]
  cases hb : before.find? (·.header = h) with
  | some x => rfl
  | none =>
      have hne : f.header ≠ h := by
        have := List.find?_eq_none.mp hb g hg
        simpa [hgf] using this
      simp [hne]

/-- A place in a catalog cuts what is searched in two. -/
theorem formats_eq_of_getElem? {c : Catalog} {i : Nat} {f : MessageFormat}
    (hf : (r.list c)[i]? = some f) :
    ∃ after, r.formats = r.searchedBefore c i ++ f :: after ∧
      (r.eraseAt c i).formats = r.searchedBefore c i ++ after := by
  obtain ⟨hi, hget⟩ := List.getElem?_eq_some_iff.mp hf
  have hsplit : r.list c = (r.list c).take i ++ f :: (r.list c).drop (i + 1) := by
    rw [← hget, ← List.drop_eq_getElem_cons hi, List.take_append_drop]
  have herase : (r.list c).eraseIdx i = (r.list c).take i ++ (r.list c).drop (i + 1) :=
    List.eraseIdx_eq_take_drop_succ ..
  cases c with
  | site =>
      refine ⟨r.site.drop (i + 1) ++ r.company, ?_, ?_⟩
      · calc
          r.formats = r.list .site ++ r.company := rfl
          _ = (r.site.take i ++ f :: r.site.drop (i + 1)) ++ r.company := by rw [hsplit]; rfl
          _ = r.searchedBefore .site i ++ f :: (r.site.drop (i + 1) ++ r.company) := by
              simp [searchedBefore]
      · calc
          (r.eraseAt .site i).formats = (r.list .site).eraseIdx i ++ r.company := rfl
          _ = (r.site.take i ++ r.site.drop (i + 1)) ++ r.company := by rw [herase]; rfl
          _ = r.searchedBefore .site i ++ (r.site.drop (i + 1) ++ r.company) := by
              simp [searchedBefore]
  | company =>
      refine ⟨r.company.drop (i + 1), ?_, ?_⟩
      · calc
          r.formats = r.site ++ r.list .company := rfl
          _ = r.site ++ (r.company.take i ++ f :: r.company.drop (i + 1)) := by rw [hsplit]; rfl
          _ = r.searchedBefore .company i ++ f :: r.company.drop (i + 1) := by
              simp [searchedBefore]
      · calc
          (r.eraseAt .company i).formats = r.site ++ (r.list .company).eraseIdx i := rfl
          _ = r.site ++ (r.company.take i ++ r.company.drop (i + 1)) := by rw [herase]; rfl
          _ = r.searchedBefore .company i ++ r.company.drop (i + 1) := by
              simp [searchedBefore]

theorem agree_eraseAt {c : Catalog} {i : Nat} (h : r.Shadowed c i) : r.Agree (r.eraseAt c i) := by
  obtain ⟨f, hf, g, hg, hgf⟩ := h
  obtain ⟨after, hr, he⟩ := formats_eq_of_getElem? hf
  intro k
  rw [format?_eq_find?, format?_eq_find?, hr, he, find?_append_cons_of_mem hg hgf]

end Registry

end LinkMonitor
