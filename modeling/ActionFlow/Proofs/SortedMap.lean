import ActionFlow.SortedMap

/-!
# The values of a map

What an operation does to the values a map holds, whatever their keys: storing a value adds that one
(`mem_values_insert`), removing a key adds none (`mem_values_erase`), and a lookup gives one of them
(`mem_values_of_get?`). An entry is found under its key (`get?_of_mem_entries`), and entries with
other keys do not change a lookup (`get?_insertAll`). A map is the map of its entries
(`ofList_entries`), and of two maps stored one after the other the second is looked up first
(`get?_insertAll_entries`).
-/

namespace ActionFlow.SortedMap

variable {κ ν : Type} [Ord κ]

theorem exists_mem_of_lookup {k : κ} {v : ν} {l : List (κ × ν)} (h : lookup k l = some v) :
    ∃ k', compare k k' = .eq ∧ (k', v) ∈ l := by
  induction l with
  | nil => cases h
  | cons e rest ih =>
    rw [lookup] at h
    split at h
    · rename_i heq
      cases h
      exact ⟨e.1, heq, List.mem_cons_self⟩
    · obtain ⟨k', heq, hmem⟩ := ih h
      exact ⟨k', heq, List.mem_cons_of_mem _ hmem⟩

theorem mem_values_of_get? {m : SortedMap κ ν} {k : κ} {v : ν} (h : m.get? k = some v) :
    v ∈ m.values := by
  obtain ⟨k', -, hmem⟩ := exists_mem_of_lookup h
  exact List.mem_map_of_mem hmem

theorem mem_entries_of_get? [Std.LawfulEqOrd κ] {m : SortedMap κ ν} {k : κ} {v : ν}
    (h : m.get? k = some v) : (k, v) ∈ m.entries := by
  obtain ⟨k', heq, hmem⟩ := exists_mem_of_lookup h
  rwa [Std.LawfulEqOrd.eq_of_compare heq]

theorem mem_values_erase {m : SortedMap κ ν} {k : κ} {x : ν} (h : x ∈ (m.erase k).values) :
    x ∈ m.values := by
  obtain ⟨e, he, rfl⟩ := List.mem_map.1 h
  exact List.mem_map_of_mem (List.mem_filter.1 he).1

variable [Std.TransOrd κ] [Std.LawfulEqOrd κ]

/-- No two entries have the same key, so a lookup of its key finds an entry. -/
theorem get?_of_mem_entries {m : SortedMap κ ν} {k : κ} {v : ν} (h : (k, v) ∈ m.entries) :
    m.get? k = some v := by
  have hlookup : ∀ l : List (κ × ν), l.Pairwise (fun a b => compare a.1 b.1 = .lt) →
      (k, v) ∈ l → lookup k l = some v := by
    intro l
    induction l with
    | nil => intro _ hmem; cases hmem
    | cons e rest ih =>
      intro hl hmem
      obtain ⟨hhead, hrest⟩ := List.pairwise_cons.1 hl
      rw [lookup]
      rcases List.mem_cons.1 hmem with rfl | hmem
      · rw [if_pos Std.ReflCmp.compare_self]
      · have hgt : compare k e.1 = .gt := Std.OrientedCmp.gt_iff_lt.2 (hhead _ hmem)
        rw [if_neg (by rw [hgt]; decide), ih hrest hmem]
  exact hlookup m.entries m.ascending h

theorem mem_values_insert {m : SortedMap κ ν} {k : κ} {v x : ν} (h : x ∈ (m.insert k v).values) :
    x = v ∨ x ∈ m.values := by
  obtain ⟨e, he, rfl⟩ := List.mem_map.1 h
  rcases mem_insertEntry he with rfl | he
  · exact Or.inl rfl
  · exact Or.inr (List.mem_map_of_mem he)

theorem get?_insertAll [DecidableEq κ] {k : κ} {entries : List (κ × ν)}
    (h : k ∉ entries.map Prod.fst) (m : SortedMap κ ν) :
    (m.insertAll entries).get? k = m.get? k := by
  induction entries generalizing m with
  | nil => rfl
  | cons e rest ih =>
    rw [List.map_cons, List.mem_cons, not_or] at h
    show ((m.insert e.1 e.2).insertAll rest).get? k = m.get? k
    rw [ih h.2, get?_insert, if_neg h.1]

/-- Whatever is found after entries have been stored is one of them or was there before. -/
theorem mem_or_get?_of_get?_insertAll [DecidableEq κ] {k : κ} {v : ν} {entries : List (κ × ν)}
    {m : SortedMap κ ν} (h : (m.insertAll entries).get? k = some v) :
    (k, v) ∈ entries ∨ m.get? k = some v := by
  induction entries generalizing m with
  | nil => exact Or.inr h
  | cons e rest ih =>
    rcases ih (m := m.insert e.1 e.2) h with hmem | hget
    · exact Or.inl (List.mem_cons_of_mem _ hmem)
    · rw [get?_insert] at hget
      split at hget
      · rename_i hk
        cases hget
        exact Or.inl (by rw [hk]; exact List.mem_cons_self)
      · exact Or.inr hget

theorem contains_insert [DecidableEq κ] {k k' : κ} {v : ν} {m : SortedMap κ ν} :
    (m.insert k' v).contains k = true ↔ k = k' ∨ m.contains k = true := by
  unfold contains
  rw [get?_insert]
  by_cases hk : k = k' <;> simp [hk]

theorem contains_insertAll [DecidableEq κ] {k : κ} {entries : List (κ × ν)} {m : SortedMap κ ν} :
    (m.insertAll entries).contains k = true ↔
      k ∈ entries.map Prod.fst ∨ m.contains k = true := by
  induction entries generalizing m with
  | nil => simp [insertAll]
  | cons e rest ih =>
    show ((m.insert e.1 e.2).insertAll rest).contains k = true ↔ _
    rw [ih, contains_insert, List.map_cons, List.mem_cons, or_left_comm, or_assoc]

theorem mem_of_get?_ofList [DecidableEq κ] {k : κ} {v : ν} {entries : List (κ × ν)}
    (h : (ofList entries).get? k = some v) : (k, v) ∈ entries :=
  (mem_or_get?_of_get?_insertAll h).resolve_right nofun

/-- An entry is found after it has been stored with others, if all keys are different. -/
theorem get?_insertAll_of_mem [DecidableEq κ] {k : κ} {v : ν} {entries : List (κ × ν)}
    (hnodup : (entries.map Prod.fst).Nodup) (h : (k, v) ∈ entries) (m : SortedMap κ ν) :
    (m.insertAll entries).get? k = some v := by
  induction entries generalizing m with
  | nil => cases h
  | cons e rest ih =>
    obtain ⟨hnew, hrest⟩ := List.nodup_cons.1 hnodup
    show ((m.insert e.1 e.2).insertAll rest).get? k = some v
    rcases List.mem_cons.1 h with rfl | hmem
    · rw [get?_insertAll hnew, get?_insert, if_pos rfl]
    · exact ih hrest hmem _

theorem mem_keys {m : SortedMap κ ν} {k : κ} : k ∈ m.keys ↔ m.contains k = true := by
  unfold contains keys
  rw [Option.isSome_iff_exists, List.mem_map]
  constructor
  · rintro ⟨⟨_, v⟩, he, rfl⟩
    exact ⟨v, get?_of_mem_entries he⟩
  · rintro ⟨v, hv⟩
    exact ⟨(k, v), mem_entries_of_get? hv, rfl⟩

/-- The first entry with a property has the least key of all entries that have it. -/
theorem find?_entries_eq_some {m : SortedMap κ ν} {p : κ × ν → Bool} {k : κ} {v : ν}
    (h : m.entries.find? p = some (k, v)) :
    m.get? k = some v ∧ p (k, v) = true ∧
      ∀ k' v', m.get? k' = some v' → p (k', v') = true → k' = k ∨ compare k k' = .lt := by
  obtain ⟨hp, before, after, hsplit, hbefore⟩ := List.find?_eq_some_iff_append.1 h
  refine ⟨get?_of_mem_entries (List.mem_of_find?_eq_some h), hp, fun k' v' hget hp' => ?_⟩
  have hmem := mem_entries_of_get? hget
  rw [hsplit, List.mem_append, List.mem_cons] at hmem
  rcases hmem with hmem | heq | hmem
  · exact absurd hp' (by simpa using hbefore _ hmem)
  · cases heq
    exact Or.inl rfl
  · have hascending := m.ascending
    rw [hsplit] at hascending
    have htail := (List.pairwise_append.1 hascending).2.1
    exact Or.inr ((List.pairwise_cons.1 htail).1 _ hmem)

omit [Std.LawfulEqOrd κ] in
theorem nodup_keys (m : SortedMap κ ν) : m.keys.Nodup := by
  unfold keys
  rw [List.nodup_iff_pairwise_ne, List.pairwise_map]
  refine m.ascending.imp fun {a b} hlt heq => ?_
  have hself : compare b.1 b.1 = .eq := Std.ReflCmp.compare_self
  rw [heq, hself] at hlt
  cases hlt

/-- The entries of another map are found before those that were there. -/
theorem get?_insertAll_entries [DecidableEq κ] (m m' : SortedMap κ ν) (k : κ) :
    (m.insertAll m'.entries).get? k = (m'.get? k).or (m.get? k) := by
  cases hget : m'.get? k with
  | some v =>
    exact get?_insertAll_of_mem m'.nodup_keys (mem_entries_of_get? hget) m
  | none =>
    refine get?_insertAll (fun hmem => ?_) m
    obtain ⟨⟨_, v⟩, he, rfl⟩ := List.mem_map.1 hmem
    rw [get?_of_mem_entries he] at hget
    cases hget

omit [Std.TransOrd κ] in
/-- The entries with a key are the one that is found under it, if there is one. -/
theorem filter_entries [DecidableEq κ] (m : SortedMap κ ν) (k : κ) :
    m.entries.filter (·.1 = k) = ((m.get? k).map (k, ·)).toList := by
  have hlist : ∀ l : List (κ × ν), l.Pairwise (fun a b => compare a.1 b.1 = .lt) →
      l.filter (·.1 = k) = ((lookup k l).map (k, ·)).toList := by
    intro l
    induction l with
    | nil => exact fun _ => rfl
    | cons e rest ih =>
      intro hl
      obtain ⟨hhead, hrest⟩ := List.pairwise_cons.1 hl
      have hself : ∀ x : κ, compare x x = .eq := fun _ => Std.ReflCmp.compare_self
      rw [lookup]
      by_cases hk : e.1 = k
      · subst hk
        have hnone : rest.filter (·.1 = e.1) = [] := by
          refine List.filter_eq_nil_iff.2 fun x hx heq => ?_
          have hlt := hhead x hx
          rw [of_decide_eq_true heq, hself] at hlt
          cases hlt
        rw [List.filter_cons, if_pos (decide_eq_true rfl), hnone, if_pos (hself e.1)]
        rfl
      · rw [List.filter_cons, if_neg (by simpa using hk), if_neg, ih hrest]
        exact fun heq => hk (Std.LawfulEqOrd.eq_of_compare heq).symm
  exact hlist m.entries m.ascending

/-- A map is the map of its entries. -/
theorem ofList_entries [DecidableEq κ] (m : SortedMap κ ν) : ofList m.entries = m := by
  refine ext_get? fun k => ?_
  cases hget : m.get? k with
  | some v => exact get?_insertAll_of_mem m.nodup_keys (mem_entries_of_get? hget) empty
  | none =>
    cases hfound : (ofList m.entries).get? k with
    | none => rfl
    | some v =>
      rw [get?_of_mem_entries (mem_of_get?_ofList hfound)] at hget
      cases hget

/-- The last of the entries with a key that are stored is found under the key. -/
theorem get?_insertAll_getLast? [DecidableEq κ] (entries : List (κ × ν)) (m : SortedMap κ ν)
    (k : κ) : (m.insertAll entries).get? k =
      (((entries.filter (·.1 = k)).map Prod.snd).getLast?).or (m.get? k) := by
  induction entries generalizing m with
  | nil => rfl
  | cons e rest ih =>
    show ((m.insert e.1 e.2).insertAll rest).get? k = _
    rw [ih, get?_insert, List.filter_cons]
    by_cases hk : e.1 = k
    · rw [if_pos hk.symm, if_pos (decide_eq_true hk), List.map_cons, List.getLast?_cons]
      cases ((rest.filter (·.1 = k)).map Prod.snd).getLast? <;> rfl
    · rw [if_neg (Ne.symm hk), if_neg (by simpa using hk)]

/-- The first entry of a list is found, if no later one has its key. -/
theorem get?_ofList_cons [DecidableEq κ] {k : κ} {v : ν} {entries : List (κ × ν)}
    (h : k ∉ entries.map Prod.fst) : (ofList ((k, v) :: entries)).get? k = some v := by
  show ((empty.insert k v).insertAll entries).get? k = some v
  rw [get?_insertAll h, get?_insert, if_pos rfl]

end ActionFlow.SortedMap

namespace ActionFlow.SortedSet

variable {κ : Type} [Ord κ] [Std.TransOrd κ] [Std.LawfulEqOrd κ]

/-- The elements of a list and of its set are the same. -/
theorem mem_keys_ofList [DecidableEq κ] {k : κ} {l : List κ} :
    k ∈ (ofList l).keys ↔ k ∈ l := by
  have hfold : ∀ (l : List κ) (m : SortedSet κ),
      (l.foldl add m).get? k = some () ↔ k ∈ l ∨ m.get? k = some () := by
    intro l
    induction l with
    | nil => simp
    | cons x rest ih =>
      intro m
      rw [List.foldl_cons, ih, List.mem_cons]
      unfold add
      rw [SortedMap.get?_insert]
      by_cases hk : k = x
      · simp [hk]
      · simp [hk]
  have hkeys : k ∈ (ofList l).keys ↔ (ofList l).get? k = some () := by
    rw [SortedMap.mem_keys, SortedMap.contains, Option.isSome_iff_exists]
    exact ⟨fun ⟨_, h⟩ => h, fun h => ⟨(), h⟩⟩
  rw [hkeys]
  unfold ofList
  rw [hfold l SortedMap.empty]
  simp

end ActionFlow.SortedSet
