import ActionFlow.Lowering.Tables
import ActionFlow.Proofs.Header.Algebra

/-!
# Identifiers of a class

An identifier of a class is a number together with all attributes that list it, and an attribute may
list several. The identifiers are collected in one pass over the attributes, and at each point of
the pass what has been collected is what the attributes up to there list (`Collects`), so at the end
it is what they all list (`collects_identifiers`).

A table covers an identifier if it has all of its attributes with the types they have in the class
(`Covers`, `coversIdentifier_iff`). What is cut out of the attributes of a class covers every
identifier it has (`covers_projected`).
-/

namespace ActionFlow

namespace ModelClass

variable {c : ModelClass} {ids : SortedMap UInt32 (SortedSet String)} {n : UInt32} {k : String}

/-- An attribute is part of the identifier with a number. -/
def InIdentifier (c : ModelClass) (n : UInt32) (attr : String) : Prop :=
  ∃ a ∈ c.attributes, a.name = attr ∧ n ∈ a.identifiers

instance : Decidable (c.InIdentifier n k) :=
  inferInstanceAs (Decidable (∃ a ∈ c.attributes, a.name = k ∧ n ∈ a.identifiers))

/-- The sets under the numbers hold what is listed, and there is one under a number only if
something is listed for it. -/
structure Collects (ids : SortedMap UInt32 (SortedSet String)) (L : UInt32 → String → Prop) :
    Prop where
  listed : ∀ n k, L n k ↔ ∃ set, ids.get? n = some set ∧ set.contains k = true
  inhabited : ∀ n set, ids.get? n = some set → ∃ k, set.contains k = true

theorem Collects.congr {L L' : UInt32 → String → Prop} (h : Collects ids L)
    (heq : ∀ n k, L n k ↔ L' n k) : Collects ids L' :=
  ⟨fun n k => (heq n k).symm.trans (h.listed n k), h.inhabited⟩

theorem collects_empty : Collects .empty fun _ _ => False :=
  ⟨fun _ _ => ⟨False.elim, fun ⟨_, h, _⟩ => nomatch h⟩, nofun⟩

/-- One more attribute under one number. -/
theorem Collects.insert {L : UInt32 → String → Prop} (h : Collects ids L) (n : UInt32)
    (attr : String) :
    Collects (ids.insert n (SortedSet.add ((ids.get? n).getD .empty) attr))
      fun m k => (k = attr ∧ m = n) ∨ L m k := by
  have hold : ∀ k, ((ids.get? n).getD .empty).contains k = true ↔ L n k := by
    intro k
    rw [h.listed n k]
    cases ids.get? n with
    | none => exact ⟨nofun, fun ⟨_, hset, _⟩ => nomatch hset⟩
    | some set => exact ⟨fun hk => ⟨set, rfl, hk⟩, fun ⟨_, hset, hk⟩ => Option.some.inj hset ▸ hk⟩
  constructor
  · intro m k
    rw [SortedMap.get?_insert]
    split
    · rename_i hm
      subst hm
      constructor
      · rintro (⟨rfl, -⟩ | hk)
        · exact ⟨_, rfl, SortedMap.contains_insert.2 (Or.inl rfl)⟩
        · exact ⟨_, rfl, SortedMap.contains_insert.2 (Or.inr ((hold k).2 hk))⟩
      · rintro ⟨_, ⟨⟩, hk⟩
        exact (SortedMap.contains_insert.1 hk).imp (⟨·, rfl⟩) (hold k).1
    · rename_i hm
      rw [← h.listed m k]
      exact ⟨fun hk => hk.resolve_left fun hnew => hm hnew.2, Or.inr⟩
  · intro m set hset
    rw [SortedMap.get?_insert] at hset
    split at hset
    · cases hset
      exact ⟨attr, SortedMap.contains_insert.2 (Or.inl rfl)⟩
    · exact h.inhabited m set hset

/-- One more attribute under all of its numbers. -/
theorem Collects.addIdentifiers {L : UInt32 → String → Prop} (h : Collects ids L) (a : Attribute) :
    Collects (addIdentifiers a ids) fun n k => (a.name = k ∧ n ∈ a.identifiers) ∨ L n k := by
  unfold ModelClass.addIdentifiers
  induction a.identifiers generalizing ids L with
  | nil => exact h.congr fun n k => by simp
  | cons m rest ih =>
    refine (ih (h.insert m a.name)).congr fun n k => ?_
    simp only [List.mem_cons]
    grind

/-- More attributes, each under all of its numbers. -/
theorem Collects.addAll {L : UInt32 → String → Prop} (h : Collects ids L)
    (attributes : List Attribute) :
    Collects (attributes.foldl (fun ids a => ModelClass.addIdentifiers a ids) ids)
      fun n k => (∃ a ∈ attributes, a.name = k ∧ n ∈ a.identifiers) ∨ L n k := by
  induction attributes generalizing ids L with
  | nil => exact h.congr fun _ _ => by simp
  | cons a rest ih =>
    refine (ih (h.addIdentifiers a)).congr fun n k => ?_
    simp only [List.mem_cons]
    grind

theorem collects_identifiers (c : ModelClass) : Collects c.identifiers c.InIdentifier :=
  (collects_empty.addAll c.attributes).congr fun _ _ => or_iff_left id

/-! ## Headers that cover an identifier -/

/-- The header of a class has its attributes. -/
theorem contains_header : c.header.contains k = true ↔ ∃ a ∈ c.attributes, a.name = k := by
  unfold header SortedMap.ofList
  rw [SortedMap.contains_insertAll]
  simp [SortedMap.contains, SortedMap.get?, SortedMap.empty, SortedMap.lookup]

theorem InIdentifier.contains_header (h : c.InIdentifier n k) : c.header.contains k = true := by
  obtain ⟨a, ha, hname, -⟩ := h
  exact ModelClass.contains_header.2 ⟨a, ha, hname⟩

/-- A header has all attributes of an identifier, with the types they have in the class. -/
structure Covers (c : ModelClass) (n : UInt32) (header : Header) : Prop where
  identifier : ∃ k, c.InIdentifier n k
  attributes : ∀ k, c.InIdentifier n k →
    ∃ typeName, header.get? k = some typeName ∧ c.header.get? k = some typeName

theorem coversIdentifier_iff {header : Header} :
    Lower.coversIdentifier c header = true ↔ ∃ n, c.Covers n header := by
  have hcollects := collects_identifiers c
  have hfits : ∀ k, ((header.get? k).isSome && header.get? k = c.header.get? k) = true ↔
      ∃ typeName, header.get? k = some typeName ∧ c.header.get? k = some typeName := by
    intro k
    cases header.get? k with
    | none => simp
    | some typeName => simp [eq_comm]
  unfold Lower.coversIdentifier
  simp only [List.any_eq_true, List.all_eq_true, SortedMap.mem_keys, hfits]
  constructor
  · rintro ⟨set, hset, hall⟩
    obtain ⟨⟨n, set⟩, hmem, rfl⟩ := List.mem_map.1 hset
    have hget := SortedMap.get?_of_mem_entries hmem
    obtain ⟨k, hk⟩ := hcollects.inhabited n set hget
    refine ⟨n, ⟨k, (hcollects.listed n k).2 ⟨set, hget, hk⟩⟩, fun k hk => hall k ?_⟩
    obtain ⟨set', hget', hk⟩ := (hcollects.listed n k).1 hk
    cases hget.symm.trans hget'
    exact hk
  · rintro ⟨n, ⟨k, hk⟩, hall⟩
    obtain ⟨set, hget, -⟩ := (hcollects.listed n k).1 hk
    exact ⟨set, SortedMap.mem_values_of_get? hget,
      fun k hk => hall k ((hcollects.listed n k).2 ⟨set, hget, hk⟩)⟩

/-- What is cut out of the attributes of a class covers every identifier it has. -/
theorem covers_projected {attributes : List String} {header : Header}
    (hok : c.header.projected attributes = .ok header) (hn : ∃ k, c.InIdentifier n k)
    (hsub : ∀ k, c.InIdentifier n k → k ∈ attributes) : c.Covers n header := by
  refine ⟨hn, fun k hk => ?_⟩
  obtain ⟨typeName, hget⟩ := Header.contains_iff.1 hk.contains_header
  refine ⟨typeName, ?_, hget⟩
  rw [(Header.projected_eq_ok_iff.1 hok).2 k, if_pos (hsub k hk), hget]

end ModelClass

end ActionFlow
