import ActionFlow.Proofs.Header

/-!
# The algebra of headers

Each operation on headers is described by when it succeeds and by what is found in the result: an
operator on two tables (`combine_eq_ok_iff`, `get?_merged`), a renaming (`renamed_eq_ok_iff`) and a
projection (`projected_eq_ok_iff`). Equal lookups mean equal headers, so the laws follow by
comparing lookups: the operators commute, joins and products are associative, a renaming can be
taken back, and a projection can be exchanged with a renaming (`header_laws`).

Where both operands have an attribute, the merged header takes the type from the second one. That
it is the type in both is what the operators check before they merge (`Compatible.agree`).
-/

namespace ActionFlow.Header

variable {a b c h : Header} {op : TableOp} {k x y t : String}

/-! ## Operators on two tables -/

/-- The attributes that two headers share have the same type in both. -/
def Agree (a b : Header) : Prop := ∀ k t t', a.get? k = some t → b.get? k = some t' → t = t'

/-- What an operator asks of the headers of its operands. -/
def Compatible (a b : Header) : TableOp → Prop
  | .join => (∃ k, a.contains k = true ∧ b.contains k = true) ∧ a.Agree b
  | .product => ∀ k, ¬ (a.contains k = true ∧ b.contains k = true)
  | .union | .intersect | .minus => a = b

theorem contains_iff : h.contains k = true ↔ ∃ t, h.get? k = some t := Option.isSome_iff_exists

theorem contains_of_get? (hget : h.get? k = some t) : h.contains k = true :=
  contains_iff.2 ⟨t, hget⟩

theorem contains_eq_false_iff : h.contains k = false ↔ h.get? k = none :=
  Option.isSome_eq_false_iff.trans Option.isNone_iff_eq_none

theorem contains_congr (heq : a.get? x = b.get? y) : a.contains x = b.contains y :=
  congrArg Option.isSome heq

theorem mem_shared : k ∈ a.shared b ↔ a.contains k = true ∧ b.contains k = true := by
  unfold shared
  rw [List.mem_filter, SortedMap.mem_keys]

theorem shared_eq_nil_iff :
    a.shared b = [] ↔ ∀ k, ¬ (a.contains k = true ∧ b.contains k = true) := by
  rw [List.eq_nil_iff_forall_not_mem]
  simp only [mem_shared]

theorem get?_merged (a b : Header) (k : String) :
    (a.merged b).get? k = (b.get? k).or (a.get? k) :=
  SortedMap.get?_insertAll_entries a b k

theorem merged_self (a : Header) : a.merged a = a := by
  refine SortedMap.ext_get? fun k => ?_
  rw [get?_merged, Option.or_self]

/-- Of three headers merged the last one is looked up first, however they are grouped. -/
theorem merged_assoc (a b c : Header) : (a.merged b).merged c = a.merged (b.merged c) := by
  refine SortedMap.ext_get? fun k => ?_
  rw [get?_merged, get?_merged, get?_merged, get?_merged, Option.or_assoc]

/-- No shared attribute has two types. -/
theorem find?_shared_eq_none_iff :
    (a.shared b).find? (fun k => a.get? k ≠ b.get? k) = none ↔ a.Agree b := by
  rw [List.find?_eq_none]
  constructor
  · intro hall k t t' ha hb
    have hsame := hall k (mem_shared.2 ⟨contains_of_get? ha, contains_of_get? hb⟩)
    rw [ha, hb] at hsame
    simpa using hsame
  · intro hagree k hk
    obtain ⟨ha, hb⟩ := mem_shared.1 hk
    obtain ⟨t, ht⟩ := contains_iff.1 ha
    obtain ⟨t', ht'⟩ := contains_iff.1 hb
    rw [ht, ht', hagree k t t' ht ht']
    simp

theorem combine_join_eq_ok_iff :
    a.combine .join b = .ok h ↔ a.Compatible b .join ∧ a.merged b = h := by
  have hshared : (∃ k, a.contains k = true ∧ b.contains k = true) ↔ a.shared b ≠ [] := by
    rw [Ne, shared_eq_nil_iff]
    simp only [Classical.not_forall, Classical.not_not]
  show _ ↔ (_ ∧ _) ∧ _
  rw [hshared, ← find?_shared_eq_none_iff]
  unfold combine
  dsimp only
  split
  · rename_i hnil
    simp [hnil]
  · rename_i hne
    have hmeet : a.shared b ≠ [] := hne
    split
    · rename_i hfound
      rw [hfound]
      simp
    · rename_i hfound
      rw [hfound]
      simp [hmeet]

theorem combine_product_eq_ok_iff :
    a.combine .product b = .ok h ↔ a.Compatible b .product ∧ a.merged b = h := by
  show _ ↔ (∀ k, _) ∧ _
  rw [← shared_eq_nil_iff]
  unfold combine
  dsimp only
  split
  · rename_i hnil
    simp [hnil]
  · rename_i hne
    have hmeet : a.shared b ≠ [] := hne
    simp [hmeet]

/-- **An operator on two tables** succeeds on compatible headers, and then merges them. -/
theorem combine_eq_ok_iff :
    a.combine op b = .ok h ↔ a.Compatible b op ∧ a.merged b = h := by
  cases op with
  | join => exact combine_join_eq_ok_iff
  | product => exact combine_product_eq_ok_iff
  | union | intersect | minus =>
    show (if a = b then Except.ok a else .error _) = .ok h ↔ a = b ∧ a.merged b = h
    by_cases hab : a = b
    · subst hab
      simp [merged_self]
    · simp [hab]

theorem exists_combine_iff : (∃ h, a.combine op b = .ok h) ↔ a.Compatible b op := by
  simp [combine_eq_ok_iff]

theorem Compatible.agree (hab : a.Compatible b op) : a.Agree b := by
  cases op with
  | join => exact hab.2
  | product =>
    intro k t t' ha hb
    exact absurd ⟨contains_of_get? ha, contains_of_get? hb⟩ (hab k)
  | union | intersect | minus =>
    cases hab
    intro k t t' ha hb
    exact Option.some.inj (ha.symm.trans hb)

theorem Compatible.symm (hab : a.Compatible b op) : b.Compatible a op := by
  cases op with
  | join =>
    obtain ⟨⟨k, ha, hb⟩, hagree⟩ := hab
    exact ⟨⟨k, hb, ha⟩, fun k t t' hb ha => (hagree k t' t ha hb).symm⟩
  | product => exact fun k hk => hab k hk.symm
  | union | intersect | minus => exact Eq.symm hab

/-- Headers that agree have all their attributes, with their types, in the merged header. -/
theorem get?_merged_of_agree (hab : a.Agree b) (hk : a.get? k = some t ∨ b.get? k = some t) :
    (a.merged b).get? k = some t := by
  rw [get?_merged]
  rcases hk with ha | hb
  · cases hb : b.get? k with
    | none => exact ha
    | some t' => rw [hab k t t' ha hb, Option.some_or]
  · rw [hb, Option.some_or]

theorem contains_merged :
    (a.merged b).contains k = true ↔ a.contains k = true ∨ b.contains k = true := by
  unfold SortedMap.contains
  rw [get?_merged, Option.isSome_or, Bool.or_eq_true, or_comm]

theorem merged_comm (hab : a.Agree b) : a.merged b = b.merged a := by
  refine SortedMap.ext_get? fun k => ?_
  cases ha : a.get? k with
  | some t =>
    have hba : b.Agree a := fun k t t' hb ha => (hab k t' t ha hb).symm
    rw [get?_merged_of_agree hab (.inl ha), get?_merged_of_agree hba (.inr ha)]
  | none => rw [get?_merged, get?_merged, ha, Option.or_none, Option.none_or]

theorem combine_comm (a b : Header) (op : TableOp) (h : Header) :
    a.combine op b = .ok h ↔ b.combine op a = .ok h := by
  have hswap : ∀ {a b : Header}, a.combine op b = .ok h → b.combine op a = .ok h := by
    intro a b hok
    obtain ⟨hab, rfl⟩ := combine_eq_ok_iff.1 hok
    exact combine_eq_ok_iff.2 ⟨hab.symm, (merged_comm hab.agree).symm⟩
  exact ⟨hswap, hswap⟩

/-! ## Renaming -/

theorem renamed_eq_ok_iff :
    h.renamed x y = .ok b ↔ h.contains x = true ∧ h.contains y = false ∧
      ∀ k, b.get? k = if k = y then h.get? x else if k = x then none else h.get? k := by
  unfold renamed
  cases hx : h.get? x with
  | none => simp [SortedMap.contains, hx]
  | some t =>
    have hlookup : ∀ k, ((h.erase x).insert y t).get? k =
        if k = y then some t else if k = x then none else h.get? k := by
      intro k
      rw [SortedMap.get?_insert, SortedMap.get?_erase]
    by_cases hy : h.contains y = true
    · simp [hy]
    · rw [Bool.not_eq_true] at hy
      simp only [hy, contains_of_get? hx, Bool.false_eq_true, if_false, true_and]
      constructor
      · intro heq
        cases heq
        exact hlookup
      · intro hb
        rw [SortedMap.ext_get? fun k => (hb k).trans (hlookup k).symm]

/-- A renaming can be taken back. -/
theorem renamed_symm (hok : h.renamed x y = .ok b) : b.renamed y x = .ok h := by
  obtain ⟨hx, hy, hb⟩ := renamed_eq_ok_iff.1 hok
  have hne : x ≠ y := by
    rintro rfl
    rw [hx] at hy
    cases hy
  have hby : b.get? y = h.get? x := (hb y).trans (if_pos rfl)
  have hbx : b.get? x = none := by rw [hb x, if_neg hne, if_pos rfl]
  refine renamed_eq_ok_iff.2
    ⟨(contains_congr hby).trans hx, contains_eq_false_iff.2 hbx, fun k => ?_⟩
  rw [hby]
  by_cases hkx : k = x
  · rw [if_pos hkx, hkx]
  · by_cases hky : k = y
    · rw [if_neg hkx, if_pos hky, hky, contains_eq_false_iff.1 hy]
    · rw [if_neg hkx, if_neg hky, hb k, if_neg hky, if_neg hkx]

/-! ## Projection -/

theorem exists_mapM_typeOf {attributes : List String}
    (hall : ∀ k ∈ attributes, h.contains k = true) :
    ∃ entries, (attributes.mapM fun attr => do return (attr, ← h.typeOf attr)) = .ok entries := by
  refine ⟨attributes.map fun k => (k, (h.get? k).getD ""), mapM_typeOf_eq_ok_iff.2 ⟨?_, ?_⟩⟩
  · rw [List.map_map]
    exact List.map_id attributes
  · intro e he
    obtain ⟨k, hk, rfl⟩ := List.mem_map.1 he
    obtain ⟨t, ht⟩ := contains_iff.1 (hall k hk)
    rw [ht, Option.getD_some]

/-- What is listed with the types found is a header of the attributes listed. -/
theorem get?_ofList_mapM {attributes : List String} {entries : List (String × String)}
    (hok : (attributes.mapM fun attr => do return (attr, ← h.typeOf attr)) = .ok entries)
    (k : String) :
    (SortedMap.ofList entries).get? k = if k ∈ attributes then h.get? k else none := by
  obtain ⟨hkeys, htypes⟩ := mapM_typeOf_eq_ok_iff.1 hok
  cases hget : (SortedMap.ofList entries).get? k with
  | some t =>
    have hmem := SortedMap.mem_of_get?_ofList hget
    rw [if_pos (hkeys ▸ List.mem_map_of_mem hmem), htypes _ hmem]
  | none =>
    refine (if_neg fun hk => ?_).symm
    have hfound : (SortedMap.ofList entries).contains k = true :=
      SortedMap.contains_insertAll.2 (.inl (hkeys ▸ hk))
    rw [contains_eq_false_iff.2 hget] at hfound
    cases hfound

theorem projected_eq_ok_iff {attributes : List String} :
    h.projected attributes = .ok b ↔ (∀ k ∈ attributes, h.contains k = true) ∧
      ∀ k, b.get? k = if k ∈ attributes then h.get? k else none := by
  unfold projected
  constructor
  · intro hok
    generalize hfound : (attributes.mapM fun attr => do return (attr, ← h.typeOf attr)) = found
      at hok
    cases found with
    | error e => cases hok
    | ok entries =>
      cases hok
      refine ⟨fun k hk => ?_, get?_ofList_mapM hfound⟩
      obtain ⟨hkeys, htypes⟩ := mapM_typeOf_eq_ok_iff.1 hfound
      obtain ⟨e, he, rfl⟩ := List.mem_map.1 (hkeys ▸ hk)
      exact contains_of_get? (htypes e he)
  · rintro ⟨hall, hb⟩
    obtain ⟨entries, hentries⟩ := exists_mapM_typeOf hall
    rw [hentries, SortedMap.ext_get? fun k => (hb k).trans (get?_ofList_mapM hentries k).symm]
    rfl

theorem exists_projected {attributes : List String}
    (hall : ∀ k ∈ attributes, h.contains k = true) : ∃ p, h.projected attributes = .ok p := by
  obtain ⟨entries, hentries⟩ := exists_mapM_typeOf hall
  refine ⟨SortedMap.ofList entries, ?_⟩
  unfold projected
  rw [hentries]
  rfl

/-- The names that a list of attributes has before `x` is renamed to `y`. -/
def beforeRenaming (x y : String) (attributes : List String) : List String :=
  attributes.map fun k => if k = y then x else k

section Exchange

variable {attributes : List String}

theorem mem_beforeRenaming (hy : y ∈ attributes) :
    k ∈ beforeRenaming x y attributes ↔ k = x ∨ k ≠ y ∧ k ∈ attributes := by
  unfold beforeRenaming
  rw [List.mem_map]
  constructor
  · rintro ⟨k', hk', rfl⟩
    split
    · exact .inl rfl
    · rename_i hne
      exact .inr ⟨hne, hk'⟩
  · rintro (rfl | ⟨hne, hk⟩)
    · exact ⟨y, hy, if_pos rfl⟩
    · exact ⟨k, hk, if_neg hne⟩

theorem beforeRenaming_beforeRenaming (hx : x ∉ attributes) :
    beforeRenaming y x (beforeRenaming x y attributes) = attributes := by
  unfold beforeRenaming
  rw [List.map_map]
  refine (List.map_congr_left fun k hk => ?_).trans (List.map_id _)
  show (if (if k = y then x else k) = x then y else if k = y then x else k) = k
  by_cases hky : k = y
  · rw [if_pos hky, if_pos rfl, hky]
  · rw [if_neg hky, if_neg (ne_of_mem_of_not_mem hk hx)]

/-- Where a projection follows a renaming, the renaming may follow the projection. -/
theorem exists_renamed_of_projected {r : Header} (hrenamed : h.renamed x y = .ok b)
    (hprojected : b.projected attributes = .ok r) (hy : y ∈ attributes) (hx : x ∉ attributes) :
    ∃ p, h.projected (beforeRenaming x y attributes) = .ok p ∧ p.renamed x y = .ok r := by
  obtain ⟨hhx, -, hb⟩ := renamed_eq_ok_iff.1 hrenamed
  obtain ⟨hall, hr⟩ := projected_eq_ok_iff.1 hprojected
  have hne : y ≠ x := ne_of_mem_of_not_mem hy hx
  have hkept : ∀ k ∈ attributes, k ≠ y → b.get? k = h.get? k := by
    intro k hk hky
    rw [hb k, if_neg hky, if_neg (ne_of_mem_of_not_mem hk hx)]
  obtain ⟨p, hp⟩ : ∃ p, h.projected (beforeRenaming x y attributes) = .ok p := by
    refine exists_projected fun k hk => ?_
    rcases (mem_beforeRenaming hy).1 hk with rfl | ⟨hky, hk⟩
    · exact hhx
    · exact (contains_congr (hkept k hk hky)).symm.trans (hall k hk)
  have hlookup := (projected_eq_ok_iff.1 hp).2
  simp only [mem_beforeRenaming hy] at hlookup
  have hpx : p.get? x = h.get? x := (hlookup x).trans (if_pos (.inl rfl))
  have hpy : p.get? y = none := (hlookup y).trans (if_neg (by simp [hne]))
  refine ⟨p, hp, renamed_eq_ok_iff.2
    ⟨(contains_congr hpx).trans hhx, contains_eq_false_iff.2 hpy, fun k => ?_⟩⟩
  rw [hr k, hpx]
  by_cases hky : k = y
  · rw [if_pos hky, hky, if_pos hy, hb y, if_pos rfl]
  · by_cases hkx : k = x
    · rw [if_neg hky, if_pos hkx, if_neg (hkx ▸ hx)]
    · rw [if_neg hky, if_neg hkx, hlookup k]
      by_cases hk : k ∈ attributes
      · rw [if_pos hk, if_pos (.inr ⟨hky, hk⟩), hkept k hk hky]
      · rw [if_neg hk, if_neg (by simp [hkx, hk])]

/-- A projection after a renaming is the renaming after a projection. The other direction is the
first one for the renaming that takes the given one back. -/
theorem projected_renamed (hrenamed : h.renamed x y = .ok b) (hy : y ∈ attributes)
    (hx : x ∉ attributes) (r : Header) :
    b.projected attributes = .ok r ↔
      (h.projected (beforeRenaming x y attributes)).bind (·.renamed x y) = .ok r := by
  constructor
  · intro hprojected
    obtain ⟨p, hp, hr⟩ := exists_renamed_of_projected hrenamed hprojected hy hx
    rw [hp]
    exact hr
  · intro hbind
    have hne : y ≠ x := ne_of_mem_of_not_mem hy hx
    cases hp : h.projected (beforeRenaming x y attributes) with
    | error e =>
      rw [hp] at hbind
      cases hbind
    | ok p =>
      rw [hp] at hbind
      have hr : p.renamed x y = .ok r := hbind
      obtain ⟨r', hr', hback⟩ := exists_renamed_of_projected (renamed_symm hrenamed) hp
        ((mem_beforeRenaming hy).2 (.inl rfl)) (by simp [mem_beforeRenaming hy, hne])
      rw [beforeRenaming_beforeRenaming hx] at hr'
      rw [hr', ← renamed_symm hback, hr]

end Exchange

/-! ## The laws -/

/-- **The laws of headers.** An operator on two tables succeeds exactly on compatible headers. The
result has the attributes of both operands, each with the type it has wherever it occurs. The
operators do not depend on the order of their operands, and joins and products not on how three
operands are grouped. A renaming can be taken back, and a projection on a list with the new name and
without the old one can be exchanged with it. -/
theorem header_laws (a b c : Header) :
    (∀ op, (∃ h, a.combine op b = .ok h) ↔ a.Compatible b op) ∧
    (∀ op h, a.combine op b = .ok h → ∀ k,
      (h.contains k = true ↔ a.contains k = true ∨ b.contains k = true) ∧
      ∀ t, a.get? k = some t ∨ b.get? k = some t → h.get? k = some t) ∧
    (∀ op h, a.combine op b = .ok h ↔ b.combine op a = .ok h) ∧
    (∀ op ab abc bc abc', a.combine op b = .ok ab → ab.combine op c = .ok abc →
      b.combine op c = .ok bc → a.combine op bc = .ok abc' → abc = abc') ∧
    ∀ x y h, a.renamed x y = .ok h →
      h.renamed y x = .ok a ∧
      ∀ attributes, y ∈ attributes → x ∉ attributes → ∀ r, h.projected attributes = .ok r ↔
        (a.projected (beforeRenaming x y attributes)).bind (·.renamed x y) = .ok r := by
  refine ⟨fun op => exists_combine_iff, fun op h hok k => ?_, combine_comm a b, ?_, ?_⟩
  · obtain ⟨hab, rfl⟩ := combine_eq_ok_iff.1 hok
    exact ⟨contains_merged, fun t => get?_merged_of_agree hab.agree⟩
  · intro op ab abc bc abc' hab habc hbc habc'
    obtain ⟨-, rfl⟩ := combine_eq_ok_iff.1 hab
    obtain ⟨-, rfl⟩ := combine_eq_ok_iff.1 habc
    obtain ⟨-, rfl⟩ := combine_eq_ok_iff.1 hbc
    obtain ⟨-, rfl⟩ := combine_eq_ok_iff.1 habc'
    exact merged_assoc a b c
  · intro x y h hok
    exact ⟨renamed_symm hok, fun attributes hy hx => projected_renamed hok hy hx⟩

end ActionFlow.Header
