import LinkMonitor.Proofs.Registry.Edits
import Mathlib.Data.List.InsertIdx

/-!
# Lookups before and after an edit

A lookup goes through the entries of both catalogs in a row, each together with the catalog that it
stands in (`entries`), and stops at the first that has the header (`lookup_eq_find?`).  Entries may
be equal, so that what has been removed, and what a lookup has found, are places in this row and not
values.

Adding an entry puts it behind those of its own catalog: it is found only where nothing was found
before, or where the entry of a company has been found and the new one is of the site
(`lookup_add_self`).  Removing an entry matters only if it is the one that is found.  Then the
search goes on behind it (`lookup_eraseAt_of_found`).
-/

namespace LinkMonitor

/-! ## Searching a list without one of its elements -/

/-- An element that a search does not stop at does not matter to it. -/
theorem find?_eraseIdx_of_findIdx?_ne {α : Type} {p : α → Bool} {l : List α} {i : Nat}
    (h : l.findIdx? p ≠ some i) : (l.eraseIdx i).find? p = l.find? p := by
  induction l generalizing i with
  | nil => rfl
  | cons x l ih =>
      cases hx : p x with
      | true =>
          cases i with
          | zero => exact absurd (by rw [List.findIdx?_cons, if_pos hx]) h
          | succ i =>
              rw [List.eraseIdx_cons_succ, List.find?_cons_of_pos hx, List.find?_cons_of_pos hx]
      | false =>
          have hx' : ¬ p x = true := by simp [hx]
          cases i with
          | zero => rw [List.eraseIdx_cons_zero, List.find?_cons_of_neg hx']
          | succ i =>
              have hl : l.findIdx? p ≠ some i := by
                intro hl
                exact h (by rw [List.findIdx?_cons, if_neg hx', hl]; rfl)
              rw [List.eraseIdx_cons_succ, List.find?_cons_of_neg hx', List.find?_cons_of_neg hx',
                ih hl]

/-- Without the element that it stops at, a search goes on behind it. -/
theorem find?_eraseIdx_of_findIdx?_eq {α : Type} {p : α → Bool} {l : List α} {i : Nat}
    (h : l.findIdx? p = some i) : (l.eraseIdx i).find? p = (l.drop (i + 1)).find? p := by
  obtain ⟨hi, -, hbefore⟩ := List.findIdx?_eq_some_iff_getElem.mp h
  have hnone : (l.take i).find? p = none := by
    rw [List.find?_eq_none]
    intro x hx
    obtain ⟨j, hj, rfl⟩ := List.mem_iff_getElem.mp hx
    rw [List.getElem_take]
    exact hbefore j (by simp at hj; omega)
  rw [List.eraseIdx_eq_take_drop_succ, List.find?_append, hnone, Option.none_or]

namespace Registry

variable {r : Registry} {f : MessageFormat} {c : Catalog} {i : Nat} {h : Header}

/-! ## Entries in a row -/

/-- All entries in the order in which they are searched, each with its catalog. -/
def entries (r : Registry) : List (MessageFormat × Catalog) :=
  r.site.map (·, .site) ++ r.company.map (·, .company)

/-- The place in the row of the entry at a place in a catalog. -/
def placeOf (r : Registry) : Catalog → Nat → Nat
  | .site, i => i
  | .company, i => r.site.length + i

/-- The place in the row of the entry that a lookup returns. -/
def found? (r : Registry) (h : Header) : Option Nat :=
  r.entries.findIdx? (·.1.header = h)

theorem find?_eq_find?_map (r : Registry) (h : Header) (c : Catalog) :
    r.find? h c = ((r.list c).map (·, c)).find? (·.1.header = h) := by
  rw [List.find?_map]
  rfl

/-- A lookup returns the first entry with the header, and the catalog that holds it. -/
theorem lookup_eq_find? (r : Registry) (h : Header) :
    r.lookup h = r.entries.find? (·.1.header = h) := by
  rw [lookup, find?_eq_find?_map, find?_eq_find?_map, entries, List.find?_append]
  rfl

theorem exists_of_find?_eq_some {x : MessageFormat × Catalog} (hx : r.find? h c = some x) :
    ∃ g, x = (g, c) := by
  obtain ⟨g, -, rfl⟩ := Option.map_eq_some_iff.mp hx
  exact ⟨g, rfl⟩

theorem lookup_eq_found? (r : Registry) (h : Header) :
    r.lookup h = (r.found? h).bind (r.entries[·]?) := by
  rw [lookup_eq_find?, List.find?_eq_bind_findIdx?_getElem?]
  rfl

theorem getElem?_entries_placeOf (hf : (r.list c)[i]? = some f) :
    r.entries[r.placeOf c i]? = some (f, c) := by
  have hmap : ((r.list c).map (·, c))[i]? = some (f, c) := by rw [List.getElem?_map, hf]; rfl
  cases c with
  | site =>
      have hi : i < (r.site.map (·, Catalog.site)).length := (List.getElem?_eq_some_iff.mp hmap).1
      rw [entries, placeOf, List.getElem?_append_left hi]
      exact hmap
  | company =>
      rw [entries, placeOf, List.getElem?_append_right (by simp), List.length_map,
        Nat.add_sub_cancel_left]
      exact hmap

/-- Removing an entry from its catalog removes it from the row. -/
theorem entries_eraseIdx (hi : i < (r.list c).length) :
    (r.replace ((r.list c).eraseIdx i) c).entries = r.entries.eraseIdx (r.placeOf c i) := by
  cases c with
  | site =>
      have hi' : i < (r.site.map (·, Catalog.site)).length := by rwa [List.length_map]
      rw [entries, entries, placeOf, List.eraseIdx_append_of_lt_length hi', List.eraseIdx_map]
      rfl
  | company =>
      rw [entries, entries, placeOf, List.eraseIdx_append_of_length_le (by simp),
        List.length_map, Nat.add_sub_cancel_left, List.eraseIdx_map]
      rfl

/-! ## Adding -/

theorem add_eq_ok_iff {r' : Registry} :
    r.add f c = (r', .ok ()) ↔ r.permits c = true ∧ r' = r.replace (r.list c ++ [f]) c := by
  cases hp : r.permits c with
  | true => simp [add_of_permits hp, eq_comm]
  | false => simp [add_of_not_permits hp]

/-- What a lookup has found gives way to an entry that is added to a catalog with the same header:
if nothing has been found, or an entry of the company while the new one is of the site. -/
def YieldsTo (found : Option (MessageFormat × Catalog)) (c : Catalog) : Prop :=
  found = none ∨ c = .site ∧ ∃ g, found = some (g, .company)

/-- The first entry with a header in a catalog, once an entry has been added to it. -/
theorem find?_replace_append (r : Registry) (f : MessageFormat) (c : Catalog) (h : Header) :
    (r.replace (r.list c ++ [f]) c).find? h c =
      (r.find? h c).or (if f.header = h then some (f, c) else none) := by
  rw [find?, find?, list_replace_self, List.find?_append, List.find?_singleton, Option.map_or]
  by_cases hf : f.header = h <;> simp [hf]

theorem find?_replace_of_ne {c' : Catalog} (hc : c' ≠ c) (fs : List MessageFormat) (h : Header) :
    (r.replace fs c').find? h c = r.find? h c := by
  rw [find?, find?, list_replace_of_ne hc]

theorem lookup_add_site (r : Registry) (f : MessageFormat) (h : Header) :
    (r.replace (r.list .site ++ [f]) .site).lookup h =
      ((r.find? h .site).or (if f.header = h then some (f, .site) else none)).or
        (r.find? h .company) := by
  rw [lookup, find?_replace_append, find?_replace_of_ne (by decide)]

theorem lookup_add_company (r : Registry) (f : MessageFormat) (h : Header) :
    (r.replace (r.list .company ++ [f]) .company).lookup h =
      (r.lookup h).or (if f.header = h then some (f, .company) else none) := by
  rw [lookup, lookup, find?_replace_append, find?_replace_of_ne (by decide), Option.or_assoc]

theorem lookup_add_of_ne (r : Registry) (c : Catalog) (hne : h ≠ f.header) :
    (r.replace (r.list c ++ [f]) c).lookup h = r.lookup h := by
  have hf : ¬ f.header = h := Ne.symm hne
  cases c with
  | site => rw [lookup_add_site, if_neg hf, Option.or_none, lookup]
  | company => rw [lookup_add_company, if_neg hf, Option.or_none]

/-- The entry that is added is found where what was found before gives way to it. -/
theorem lookup_add_self (r : Registry) (f : MessageFormat) (c : Catalog) :
    (YieldsTo (r.lookup f.header) c →
      (r.replace (r.list c ++ [f]) c).lookup f.header = some (f, c)) ∧
    (¬ YieldsTo (r.lookup f.header) c →
      (r.replace (r.list c ++ [f]) c).lookup f.header = r.lookup f.header) := by
  cases c with
  | site =>
      rw [lookup_add_site, if_pos rfl]
      cases hs : r.find? f.header .site with
      | some x =>
          obtain ⟨g, rfl⟩ := exists_of_find?_eq_some hs
          have hfound : r.lookup f.header = some (g, .site) := by rw [lookup, hs, Option.some_or]
          rw [hfound]
          refine ⟨?_, fun _ ↦ rfl⟩
          rintro (hnone | ⟨-, g', hcompany⟩)
          · cases hnone
          · cases hcompany
      | none =>
          have hfound : r.lookup f.header = r.find? f.header .company := by
            rw [lookup, hs, Option.none_or]
          rw [hfound]
          refine ⟨fun _ ↦ rfl, fun hstays ↦ absurd ?_ hstays⟩
          cases hc : r.find? f.header .company with
          | none => exact .inl rfl
          | some x =>
              obtain ⟨g, rfl⟩ := exists_of_find?_eq_some hc
              exact .inr ⟨rfl, g, rfl⟩
  | company =>
      rw [lookup_add_company, if_pos rfl]
      cases r.lookup f.header with
      | some x =>
          refine ⟨?_, fun _ ↦ rfl⟩
          rintro (hnone | ⟨hsite, -⟩)
          · cases hnone
          · cases hsite
      | none => exact ⟨fun _ ↦ rfl, fun hstays ↦ absurd (.inl rfl) hstays⟩

/-! ## Removing -/

/-- The place that a selector picks: the given one, or that of the first entry that equals a
format. -/
def Picks (fs : List MessageFormat) : Selector → Nat → Prop
  | .index j, i => i = j
  | .entry f, i => fs[i]? = some f ∧ f ∉ fs.take i

theorem picks_of_place? {fs : List MessageFormat} {x : Selector} (hi : place? fs x = some i) :
    Picks fs x i := by
  cases x with
  | index j => exact (place?_index_eq_some_iff.mp hi).1
  | entry f =>
      rw [place?_entry] at hi
      obtain ⟨hlt, hget, hbefore⟩ := List.idxOf?_eq_some_iff.mp hi
      refine ⟨by rw [List.getElem?_eq_getElem hlt, hget], ?_⟩
      intro hmem
      obtain ⟨j, hj, hfj⟩ := List.mem_iff_getElem.mp hmem
      rw [List.getElem_take] at hfj
      exact hbefore j (by simp at hj; omega) hfj

theorem exists_of_remove_eq_true {x : Selector} {r' : Registry} (hr : r.remove x c = (r', true)) :
    ∃ i, place? (r.list c) x = some i ∧ r' = r.replace ((r.list c).eraseIdx i) c := by
  unfold remove at hr
  split at hr
  · split at hr
    · rename_i i hi
      cases hr
      exact ⟨i, hi, rfl⟩
    · cases hr
  · cases hr

/-- A lookup that does not find the entry at a place is the same without it. -/
theorem lookup_eraseIdx_of_found?_ne (hi : i < (r.list c).length)
    (hne : r.found? h ≠ some (r.placeOf c i)) :
    (r.replace ((r.list c).eraseIdx i) c).lookup h = r.lookup h := by
  rw [lookup_eq_find?, lookup_eq_find?, entries_eraseIdx hi, find?_eraseIdx_of_findIdx?_ne hne]

/-- A lookup that finds the entry at a place finds the next one behind it once it is removed. -/
theorem lookup_eraseIdx_of_found?_eq (hi : i < (r.list c).length)
    (heq : r.found? h = some (r.placeOf c i)) :
    (r.replace ((r.list c).eraseIdx i) c).lookup h =
      (r.entries.drop (r.placeOf c i + 1)).find? (·.1.header = h) := by
  rw [lookup_eq_find?, entries_eraseIdx hi, find?_eraseIdx_of_findIdx?_eq heq]

/-- A lookup never finds an entry with another header. -/
theorem found?_ne_of_header_ne (hf : (r.list c)[i]? = some f) (hne : h ≠ f.header) :
    r.found? h ≠ some (r.placeOf c i) := by
  intro hfound
  obtain ⟨hlt, hheader, -⟩ := List.findIdx?_eq_some_iff_getElem.mp hfound
  have hget : r.entries[r.placeOf c i] = (f, c) := by
    have hsome := getElem?_entries_placeOf hf
    rwa [List.getElem?_eq_getElem hlt, Option.some_inj] at hsome
  rw [hget, decide_eq_true_iff] at hheader
  exact hne hheader.symm

/-- What removing an entry of a catalog does to lookups. -/
structure Uncovers (r : Registry) (c : Catalog) (i : Nat) (f : MessageFormat) (r' : Registry) :
    Prop where
  list : r'.list c = (r.list c).eraseIdx i
  entry : r.entries[r.placeOf c i]? = some (f, c)
  lookup_of_ne {h : Header} : h ≠ f.header → r'.lookup h = r.lookup h
  /-- The entry was not the one that is found, and goes unnoticed. -/
  lookup_of_not_found : r.found? f.header ≠ some (r.placeOf c i) →
    r'.lookup f.header = r.lookup f.header
  /-- The entry was the one that is found, and the next one with the header is found now. -/
  lookup_of_found : r.found? f.header = some (r.placeOf c i) →
    r'.lookup f.header = (r.entries.drop (r.placeOf c i + 1)).find? (·.1.header = f.header)

theorem uncovers_of_remove {x : Selector} {r' : Registry} (hr : r.remove x c = (r', true)) :
    ∃ i f, Picks (r.list c) x i ∧ (r.list c)[i]? = some f ∧ r.Uncovers c i f r' := by
  obtain ⟨i, hplace, rfl⟩ := exists_of_remove_eq_true hr
  have hi : i < (r.list c).length := lt_length_of_place? hplace
  have hf : (r.list c)[i]? = some (r.list c)[i] := List.getElem?_eq_getElem hi
  refine ⟨i, (r.list c)[i], picks_of_place? hplace, hf, ?_⟩
  exact {
    list := list_replace_self _
    entry := getElem?_entries_placeOf hf
    lookup_of_ne := fun hne ↦ lookup_eraseIdx_of_found?_ne hi (found?_ne_of_header_ne hf hne)
    lookup_of_not_found := lookup_eraseIdx_of_found?_ne hi
    lookup_of_found := lookup_eraseIdx_of_found?_eq hi }

/-- **Edits have the intended effect on lookups.**  A lookup returns the first entry with the header
in the catalog of the site and that of the company in a row, with the catalog it stands in.  An
entry that is added is found for its own header if what was found before gives way to it; an entry
that is removed, by its place or as the first that equals a format, leaves its header to the next
entry behind it if it was the one that was found.  All else is found as before. -/
theorem lookup_after_edits (r : Registry) :
    (∀ h, r.lookup h = r.entries.find? (·.1.header = h) ∧
      r.lookup h = (r.found? h).bind (r.entries[·]?)) ∧
    (∀ (f : MessageFormat) (c : Catalog) (r' : Registry), r.add f c = (r', .ok ()) →
      (∀ h, h ≠ f.header → r'.lookup h = r.lookup h) ∧
      (YieldsTo (r.lookup f.header) c → r'.lookup f.header = some (f, c)) ∧
      (¬ YieldsTo (r.lookup f.header) c → r'.lookup f.header = r.lookup f.header)) ∧
    (∀ (x : Selector) (c : Catalog) (r' : Registry), r.remove x c = (r', true) →
      ∃ i f, Picks (r.list c) x i ∧ (r.list c)[i]? = some f ∧ r.Uncovers c i f r') := by
  refine ⟨fun h ↦ ⟨r.lookup_eq_find? h, r.lookup_eq_found? h⟩, ?_, ?_⟩
  · intro f c r' hadd
    obtain ⟨-, rfl⟩ := add_eq_ok_iff.mp hadd
    exact ⟨fun h ↦ r.lookup_add_of_ne c, r.lookup_add_self f c⟩
  · intro x c r'
    exact uncovers_of_remove

/-- Of two equal entries of the site the first is removed, then the other.  That uncovers an entry
of the company with another length, until the removed one is added again. -/
theorem lookup_after_edits_uncovered :
    let short : MessageFormat := ⟨⟨0x01, 0x02⟩, "Speed", 2, "g * 2 h"⟩
    let long : MessageFormat := ⟨⟨0x01, 0x02⟩, "Speed", 4, "j"⟩
    let r : Registry := { site := [short, short], company := [long] }
    let r₁ : Registry := { site := [short], company := [long] }
    let r₂ : Registry := { site := [], company := [long] }
    (r.remove (.entry short) .site = (r₁, true) ∧ r.found? short.header = some 0 ∧
      r₁.lookup short.header = some (short, .site)) ∧
    (r₁.remove (.entry short) .site = (r₂, true) ∧ r₁.found? short.header = some 0 ∧
      r₂.lookup short.header = some (long, .company)) ∧
    (r₂.add short .site = (r₁, .ok ()) ∧ YieldsTo (r₂.lookup short.header) .site ∧
      r₁.lookup short.header = some (short, .site)) := by
  intro short long r r₁ r₂
  have huncovers : ∀ {fs} {r r' : Registry}, r.site = short :: fs →
      r.remove (.entry short) .site = (r', true) → r.found? short.header = some 0 →
      r'.lookup short.header = (r.entries.drop 1).find? (·.1.header = short.header) := by
    intro fs r r' hsite hremove hfound
    obtain ⟨i, f, ⟨hpick, hbefore⟩, hf, hafter⟩ := (lookup_after_edits r).2.2 _ _ _ hremove
    obtain rfl : short = f := Option.some.inj (hpick.symm.trans hf)
    cases i with
    | zero => exact hafter.lookup_of_found hfound
    | succ i =>
        rw [list, hsite] at hbefore
        exact absurd List.mem_cons_self hbefore
  have hremove : r.remove (.entry short) .site = (r₁, true) := by decide
  have hremove₁ : r₁.remove (.entry short) .site = (r₂, true) := by decide
  have hadd : r₂.add short .site = (r₁, .ok ()) := rfl
  have hyields : YieldsTo (r₂.lookup short.header) .site := .inr ⟨rfl, long, rfl⟩
  exact ⟨⟨hremove, rfl, huncovers rfl hremove rfl⟩, ⟨hremove₁, rfl, huncovers rfl hremove₁ rfl⟩,
    hadd, hyields, ((lookup_after_edits r₂).2.1 _ _ _ hadd).2.1 hyields⟩

end Registry

end LinkMonitor
