import ActionFlow.Header
import ActionFlow.Proofs.SortedMap

/-!
# Types of derived headers

Whatever a table is derived by, each attribute of its header keeps the type it has in the header it
comes from: after a projection (`get?_of_projected`), a renaming (`exists_get?_of_renamed`) and an
operator on two tables (`get?_of_combine`). Cutting a header down to all of its attributes leaves
it as it is (`projected_keys`).
-/

namespace ActionFlow.Header

variable {h h' : Header} {attr typeName : String}

theorem typeOf_eq_ok : h.typeOf attr = .ok typeName ↔ h.get? attr = some typeName := by
  unfold typeOf
  split
  · rename_i found heq
    rw [heq]
    simp
  · rename_i heq
    rw [heq]
    simp

/-- The attributes that are asked for one by one come paired with the types they have. -/
theorem mapM_typeOf_eq_ok_iff {attributes : List String} {entries : List (String × String)} :
    (attributes.mapM fun attr => do return (attr, ← h.typeOf attr)) = .ok entries ↔
      entries.map Prod.fst = attributes ∧ ∀ e ∈ entries, h.get? e.1 = some e.2 := by
  constructor
  · intro hok
    induction attributes generalizing entries with
    | nil =>
      cases hok
      exact ⟨rfl, nofun⟩
    | cons a rest ih =>
      rw [List.mapM_cons] at hok
      cases htype : h.typeOf a with
      | error e =>
        rw [htype] at hok
        cases hok
      | ok t =>
        rw [htype] at hok
        generalize hrest : (rest.mapM fun attr => do return (attr, ← h.typeOf attr)) = found
          at hok
        cases found with
        | error e => cases hok
        | ok es =>
          cases hok
          obtain ⟨hnames, htypes⟩ := ih hrest
          refine ⟨?_, List.forall_mem_cons.2 ⟨typeOf_eq_ok.1 htype, htypes⟩⟩
          rw [List.map_cons, hnames]
  · rintro ⟨rfl, htypes⟩
    induction entries with
    | nil => rfl
    | cons e rest ih =>
      obtain ⟨hfirst, hrest⟩ := List.forall_mem_cons.1 htypes
      rw [List.map_cons, List.mapM_cons, typeOf_eq_ok.2 hfirst, ih hrest]
      rfl

theorem get?_of_projected {attributes : List String} (hok : h.projected attributes = .ok h')
    (hget : h'.get? attr = some typeName) : h.get? attr = some typeName := by
  unfold projected at hok
  generalize hentries : (attributes.mapM fun attr => do return (attr, ← h.typeOf attr)) = found
    at hok
  cases found with
  | error e => cases hok
  | ok entries =>
    cases hok
    exact (mapM_typeOf_eq_ok_iff.1 hentries).2 _ (SortedMap.mem_of_get?_ofList hget)

theorem projected_keys (h : Header) : h.projected h.keys = .ok h := by
  unfold projected SortedMap.keys
  rw [mapM_typeOf_eq_ok_iff.2 ⟨rfl, fun e he => SortedMap.get?_of_mem_entries he⟩]
  exact congrArg Except.ok h.ofList_entries

/-- A renamed attribute keeps its type, and so do the others. -/
theorem exists_get?_of_renamed {old new : String} (hok : h.renamed old new = .ok h')
    (hget : h'.get? attr = some typeName) : ∃ attr', h.get? attr' = some typeName := by
  unfold renamed at hok
  split at hok
  · cases hok
  · rename_i t hold
    split at hok
    · cases hok
    · cases hok
      rw [SortedMap.get?_insert] at hget
      split at hget
      · cases hget
        exact ⟨old, hold⟩
      · rw [SortedMap.get?_erase] at hget
        split at hget
        · cases hget
        · exact ⟨attr, hget⟩

theorem get?_of_merged {a b : Header} (hget : (a.merged b).get? attr = some typeName) :
    a.get? attr = some typeName ∨ b.get? attr = some typeName := by
  rcases SortedMap.mem_or_get?_of_get?_insertAll hget with hmem | hget
  · exact Or.inr (SortedMap.get?_of_mem_entries hmem)
  · exact Or.inl hget

theorem get?_of_combine {a b : Header} {op : TableOp} (hok : a.combine op b = .ok h)
    (hget : h.get? attr = some typeName) :
    a.get? attr = some typeName ∨ b.get? attr = some typeName := by
  have hcases : h = a.merged b ∨ h = a := by
    unfold combine at hok
    split at hok
    · split at hok <;> cases hok
      exact Or.inl rfl
    · split at hok
      · cases hok
      · split at hok <;> cases hok
        exact Or.inl rfl
    all_goals
      split at hok <;> cases hok
      exact Or.inr rfl
  rcases hcases with rfl | rfl
  · exact get?_of_merged hget
  · exact Or.inl hget

end ActionFlow.Header
