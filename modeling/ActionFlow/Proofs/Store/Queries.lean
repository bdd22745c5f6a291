import ActionFlow.Proofs.SortedMap
import ActionFlow.Store.Basic
import Mathlib.Data.List.Forall2
import Mathlib.Data.List.Induction

/-!
# What queries answer

A join is answered through an index of the second relation: for each row of the first, the rows with
the same key are looked up. The index holds under a key the rows that have it, in their order
(`Store.get?_index`), so the answer is that of two nested loops over the relations
(`Store.pairs`, `Store.forall₂_join`). A semijoin keeps the rows that have a partner there
(`Store.semijoin_eq`), and a projection lists the rows cut down to some attributes once each, in the
order in which they occur first (`Store.exists_reduced_project`).
-/

namespace ActionFlow

/-! ## Rows -/

namespace Tuple

variable {attributes : List String} {t t' : Tuple}

/-- Two rows have the same values of some attributes, where an absent value is null. -/
def Agrees (attributes : List String) (t t' : Tuple) : Prop :=
  ∀ a ∈ attributes, (t'.get? a).getD .null = (t.get? a).getD .null

instance : Decidable (Agrees attributes t t') :=
  inferInstanceAs (Decidable (∀ a ∈ attributes, _))

/-- A row has the values of the second of two rows and, for all other attributes, those of the
first. -/
def Merges (t t' row : Tuple) : Prop := ∀ a, row.get? a = (t'.get? a).or (t.get? a)

/-- A row is another one without the attributes that are not listed. -/
def Reduces (attributes : List String) (t row : Tuple) : Prop :=
  ∀ a, row.get? a = if a ∈ attributes then t.get? a else none

theorem key_eq_key_iff : t'.key attributes = t.key attributes ↔ Agrees attributes t t' :=
  List.map_inj_left

theorem merges_insertAll (t t' : Tuple) : Merges t t' (t.insertAll t'.entries) :=
  SortedMap.get?_insertAll_entries t t'

theorem get?_insertAll_filterMap (t row : Tuple) (attributes : List String) (a : String) :
    (row.insertAll (attributes.filterMap fun a => (t.get? a).map (a, ·))).get? a =
      if a ∈ attributes then (t.get? a).or (row.get? a) else row.get? a := by
  induction attributes generalizing row with
  | nil => rfl
  | cons a' rest ih =>
    cases hget : t.get? a' with
    | none =>
      rw [List.filterMap_cons_none (by rw [hget]; rfl), ih]
      by_cases ha : a = a'
      · subst ha
        simp [hget]
      · simp [ha]
    | some v =>
      rw [List.filterMap_cons_some (by rw [hget]; rfl)]
      show ((row.insert a' v).insertAll _).get? a = _
      rw [ih, SortedMap.get?_insert]
      by_cases ha : a = a'
      · subst ha
        simp [hget]
      · simp [ha]

theorem reduces_restricted (attributes : List String) (t : Tuple) :
    Reduces attributes t (t.restricted attributes) := by
  intro a
  unfold restricted SortedMap.ofList
  rw [get?_insertAll_filterMap, SortedMap.get?_empty, Option.or_none]

end Tuple

/-- The elements of a list once each, in the order in which they occur first. -/
structure FirstOccurrences (l firsts : List Tuple) : Prop where
  nodup : firsts.Nodup
  mem : ∀ t, t ∈ firsts ↔ t ∈ l
  order : firsts.Pairwise fun t t' => l.idxOf t < l.idxOf t'

/-- Every further element is added at the end, unless it has occurred before. -/
theorem firstOccurrences_eraseDups (l : List Tuple) : FirstOccurrences l l.eraseDups := by
  have horder : l.eraseDups.Pairwise fun t t' => l.idxOf t < l.idxOf t' := by
    induction l using List.reverseRecOn with
    | nil => exact .nil
    | append_singleton l t ih =>
      have hkept : ∀ x ∈ l.eraseDups, (l ++ [t]).idxOf x = l.idxOf x :=
        fun x hx => List.idxOf_append_of_mem (List.mem_eraseDups.1 hx)
      have hbefore : l.eraseDups.Pairwise fun x y => (l ++ [t]).idxOf x < (l ++ [t]).idxOf y :=
        ih.imp_of_mem fun hx hy hlt => by rwa [hkept _ hx, hkept _ hy]
      rw [List.eraseDups_append]
      by_cases ht : t ∈ l
      · have hnone : List.removeAll [t] l = [] := by simp [List.removeAll, ht]
        rwa [hnone, List.eraseDups_nil, List.append_nil]
      · have hnew : List.removeAll [t] l = [t] := by simp [List.removeAll, ht]
        rw [hnew, List.eraseDups_cons, List.filter_nil, List.eraseDups_nil]
        refine List.pairwise_append.2 ⟨hbefore, List.pairwise_singleton _ _, fun x hx y hy => ?_⟩
        cases List.mem_singleton.1 hy
        rw [hkept x hx, List.idxOf_append_of_notMem ht]
        have hlt := List.idxOf_lt_length_of_mem (List.mem_eraseDups.1 hx)
        omega
  refine ⟨?_, fun _ => List.mem_eraseDups, horder⟩
  exact horder.imp fun hlt heq => absurd hlt (by rw [heq]; exact Nat.lt_irrefl _)

namespace Store

variable (s : Store) (a b : String) (attributes : List String)

/-! ## Joins -/

/-- The pairs of rows of two relations that agree on some attributes, with the rows of the first
relation in the outer loop and those of the second in the inner one. -/
def pairs : List (Tuple × Tuple) :=
  (s.tuples a).flatMap fun t =>
    ((s.tuples b).filter fun t' => t.Agrees attributes t').map fun t' => (t, t')

theorem get?_foldl_push (attributes : List String) (tuples : List Tuple) (index : Index)
    (key : List Value) :
    ((tuples.foldl (Index.push attributes) index).get? key).getD [] =
      (index.get? key).getD [] ++ tuples.filter (·.key attributes = key) := by
  induction tuples generalizing index with
  | nil => simp
  | cons t rest ih =>
    rw [List.foldl_cons, ih]
    unfold Index.push
    rw [SortedMap.get?_insert]
    by_cases h : key = t.key attributes
    · subst h
      simp
    · simp [h, Ne.symm h]

/-- Under a key the index has the rows of the relation with this key, in their order. -/
theorem get?_index (key : List Value) :
    ((s.index a attributes).get? key).getD [] = (s.tuples a).filter (·.key attributes = key) :=
  get?_foldl_push attributes (s.tuples a) SortedMap.empty key

/-- **A join** merges the pairs of nested loops one by one. -/
theorem join_eq : s.join a b attributes =
    (s.pairs a b attributes).map fun p => p.1.insertAll p.2.entries := by
  unfold join pairs
  simp only [get?_index, List.map_flatMap, List.map_map, Function.comp_def, Tuple.key_eq_key_iff]

theorem forall₂_join :
    List.Forall₂ (fun p row => p.1.Merges p.2 row) (s.pairs a b attributes)
      (s.join a b attributes) := by
  rw [join_eq, List.forall₂_map_right_iff]
  exact List.forall₂_same.2 fun p _ => p.1.merges_insertAll p.2

theorem mem_pairs {t t' : Tuple} : (t, t') ∈ s.pairs a b attributes ↔
    t ∈ s.tuples a ∧ t' ∈ s.tuples b ∧ t.Agrees attributes t' := by
  simp [pairs]

/-- **A semijoin** keeps the rows that are in a pair. -/
theorem semijoin_eq : s.semijoin a b attributes =
    (s.tuples a).filter fun t => ∃ p ∈ s.pairs a b attributes, p.1 = t := by
  unfold semijoin
  refine List.filter_congr fun t ht => ?_
  rw [Bool.eq_iff_iff, ← SortedMap.mem_keys, SortedSet.mem_keys_ofList, List.mem_map,
    decide_eq_true_iff]
  constructor
  · rintro ⟨t', ht', hkey⟩
    exact ⟨(t, t'), (s.mem_pairs a b attributes).2 ⟨ht, ht', Tuple.key_eq_key_iff.1 hkey⟩, rfl⟩
  · rintro ⟨⟨t, t'⟩, hmem, rfl⟩
    obtain ⟨-, ht', hagrees⟩ := (s.mem_pairs a b attributes).1 hmem
    exact ⟨t', ht', Tuple.key_eq_key_iff.2 hagrees⟩

/-! ## Projections -/

/-- The rows of a relation, cut down to some attributes, and which of them a projection lists. -/
theorem exists_reduced_project : ∃ reduced,
    List.Forall₂ (fun t row => t.Reduces attributes row) (s.tuples a) reduced ∧
      FirstOccurrences reduced (s.project a attributes) := by
  refine ⟨(s.tuples a).map (·.restricted attributes), ?_, firstOccurrences_eraseDups _⟩
  rw [List.forall₂_map_right_iff]
  exact List.forall₂_same.2 fun t _ => t.reduces_restricted attributes

/-- **Queries are answered as nested loops answer them**: a join has one row for each pair, in the
order of the loops, a semijoin the rows that are in a pair, as often and in the order in which the
relation has them, and a projection each row that is left over once, at its first place. -/
theorem queries_nested :
    List.Forall₂ (fun p row => p.1.Merges p.2 row) (s.pairs a b attributes)
        (s.join a b attributes) ∧
      s.semijoin a b attributes =
        (s.tuples a).filter (fun t => ∃ p ∈ s.pairs a b attributes, p.1 = t) ∧
      ∃ reduced, List.Forall₂ (fun t row => t.Reduces attributes row) (s.tuples a) reduced ∧
        FirstOccurrences reduced (s.project a attributes) :=
  ⟨s.forall₂_join a b attributes, s.semijoin_eq a b attributes,
    s.exists_reduced_project a attributes⟩

end Store

end ActionFlow
