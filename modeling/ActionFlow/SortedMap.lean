/-!
# Maps in ascending key order

A finite map is the list of its entries in strictly ascending key order, with the order kept as a
proof. Equal contents therefore mean equal values (`SortedMap.ext_get?`), and whatever is listed
from a map comes out in key order. The operations are described by what they do to a lookup
(`get?_insert`, `get?_erase`).
-/

namespace ActionFlow

variable {κ ν : Type} [Ord κ]

/-- A finite map, held as its entries in strictly ascending key order. -/
structure SortedMap (κ ν : Type) [Ord κ] where
  /-- The entries, smallest key first. -/
  entries : List (κ × ν)
  /-- The keys ascend strictly, so no key occurs twice. -/
  ascending : entries.Pairwise (fun a b => compare a.1 b.1 = .lt)

namespace SortedMap

/-- Two maps with the same entries are equal. -/
@[ext] theorem ext {a b : SortedMap κ ν} (h : a.entries = b.entries) : a = b := by
  cases a; cases b; cases h; rfl

instance [DecidableEq κ] [DecidableEq ν] : DecidableEq (SortedMap κ ν) := fun a b =>
  decidable_of_iff (a.entries = b.entries) ⟨ext, fun h => h ▸ rfl⟩

/-- The map without entries. -/
def empty : SortedMap κ ν := ⟨[], .nil⟩

instance : Inhabited (SortedMap κ ν) := ⟨empty⟩

/-- The keys in ascending order. -/
def keys (m : SortedMap κ ν) : List κ := m.entries.map Prod.fst

/-- The values, in the order of their keys. -/
def values (m : SortedMap κ ν) : List ν := m.entries.map Prod.snd

/-! ## Lookup -/

/-- The value stored under a key in a list of entries. -/
def lookup (k : κ) : List (κ × ν) → Option ν
  | [] => none
  | (k', v) :: rest => if compare k k' = .eq then some v else lookup k rest

/-- The value stored under a key. -/
def get? (m : SortedMap κ ν) (k : κ) : Option ν := lookup k m.entries

/-- Whether a key has a value. -/
def contains (m : SortedMap κ ν) (k : κ) : Bool := (m.get? k).isSome

/-! ## Insertion -/

/-- Puts an entry at its place, replacing one with the same key. -/
def insertEntry (k : κ) (v : ν) : List (κ × ν) → List (κ × ν)
  | [] => [(k, v)]
  | (k', v') :: rest =>
    match compare k k' with
    | .lt => (k, v) :: (k', v') :: rest
    | .eq => (k, v) :: rest
    | .gt => (k', v') :: insertEntry k v rest

theorem mem_insertEntry {k : κ} {v : ν} {l : List (κ × ν)} {e : κ × ν}
    (h : e ∈ insertEntry k v l) : e = (k, v) ∨ e ∈ l := by
  induction l with
  | nil => simpa [insertEntry] using h
  | cons x rest ih =>
    rw [insertEntry] at h
    split at h <;> simp only [List.mem_cons] at h ⊢
    · exact h
    · exact h.imp id .inr
    · exact h.elim (fun h => .inr (.inl h)) fun h => (ih h).imp id .inr

theorem insertEntry_ascending [Std.TransOrd κ] [Std.LawfulEqOrd κ] {k : κ} {v : ν}
    {l : List (κ × ν)} (h : l.Pairwise (fun a b => compare a.1 b.1 = .lt)) :
    (insertEntry k v l).Pairwise (fun a b => compare a.1 b.1 = .lt) := by
  induction l with
  | nil => simp [insertEntry]
  | cons x rest ih =>
    obtain ⟨hx, hrest⟩ := List.pairwise_cons.1 h
    rw [insertEntry]
    split
    case h_1 hk =>
      refine List.pairwise_cons.2 ⟨fun e he => ?_, h⟩
      rcases List.mem_cons.1 he with rfl | he
      · exact hk
      · exact Std.TransCmp.lt_trans hk (hx e he)
    case h_2 hk =>
      cases Std.LawfulEqCmp.eq_of_compare hk
      exact List.pairwise_cons.2 ⟨hx, hrest⟩
    case h_3 hk =>
      refine List.pairwise_cons.2 ⟨fun e he => ?_, ih hrest⟩
      rcases mem_insertEntry he with rfl | he
      · exact Std.OrientedCmp.gt_iff_lt.1 hk
      · exact hx e he

variable [Std.TransOrd κ] [Std.LawfulEqOrd κ]

/-- Stores a value under a key, replacing the one stored before. -/
def insert (m : SortedMap κ ν) (k : κ) (v : ν) : SortedMap κ ν :=
  ⟨insertEntry k v m.entries, insertEntry_ascending m.ascending⟩

/-- Stores every entry of a list in turn, so that a later one wins. -/
def insertAll (m : SortedMap κ ν) (entries : List (κ × ν)) : SortedMap κ ν :=
  entries.foldl (fun m e => m.insert e.1 e.2) m

/-- The map of a list of entries; of two with the same key the later one wins. -/
def ofList (entries : List (κ × ν)) : SortedMap κ ν := empty.insertAll entries

/-- Removes a key and its value. -/
def erase (m : SortedMap κ ν) (k : κ) : SortedMap κ ν :=
  ⟨m.entries.filter fun e => compare k e.1 ≠ .eq, m.ascending.filter _⟩

/-! ## What the operations do to a lookup -/

omit [Std.TransOrd κ] [Std.LawfulEqOrd κ] in
@[simp] theorem get?_empty (k : κ) : (empty : SortedMap κ ν).get? k = none := rfl

omit [Std.TransOrd κ] [Std.LawfulEqOrd κ] in
theorem lookup_filter_ne {k k' : κ} {l : List (κ × ν)} (h : ∀ x : κ, compare k x = .eq →
    compare k' x ≠ .eq) :
    lookup k (l.filter fun e => compare k' e.1 ≠ .eq) = lookup k l := by
  induction l with
  | nil => rfl
  | cons e rest ih =>
    by_cases hk : compare k' e.1 = .eq
    · have hne : compare k e.1 ≠ .eq := fun he => h _ he hk
      simp [hk, lookup, hne, ← ih]
    · simp [hk, lookup, ← ih]

omit [Std.TransOrd κ] [Std.LawfulEqOrd κ] in
theorem lookup_filter_self {k : κ} {l : List (κ × ν)} :
    lookup k (l.filter fun e => compare k e.1 ≠ .eq) = none := by
  induction l with
  | nil => rfl
  | cons e rest ih =>
    by_cases hk : compare k e.1 = .eq
    · simpa [hk] using ih
    · simpa [hk, lookup] using ih

omit [Std.TransOrd κ] in
/-- Removing a key removes its value and no other. -/
theorem get?_erase [DecidableEq κ] (m : SortedMap κ ν) (k k' : κ) :
    (m.erase k').get? k = if k = k' then none else m.get? k := by
  by_cases h : k = k'
  · subst h; simp only [if_true]; exact lookup_filter_self
  · simp only [h, if_false]
    refine lookup_filter_ne fun x hx hx' => h ?_
    rw [Std.LawfulEqCmp.eq_of_compare hx, Std.LawfulEqCmp.eq_of_compare hx']

omit [Std.TransOrd κ] in
theorem lookup_insertEntry [DecidableEq κ] (k k' : κ) (v : ν) (l : List (κ × ν)) :
    lookup k (insertEntry k' v l) = if k = k' then some v else lookup k l := by
  induction l with
  | nil => simp [insertEntry, lookup]
  | cons e rest ih =>
    rw [insertEntry]
    split
    case h_1 => simp [lookup]
    case h_2 h =>
      cases Std.LawfulEqCmp.eq_of_compare h
      by_cases hk : k = e.1 <;> simp [lookup, hk]
    case h_3 h =>
      have hne : k' ≠ e.1 := fun he => by simp [he] at h
      simp only [lookup, ih, Std.LawfulEqCmp.compare_eq_iff_eq]
      by_cases hk : k = e.1
      · subst hk; simp [Ne.symm hne]
      · simp [hk]

/-- Storing a value changes the lookup of its key only. -/
theorem get?_insert [DecidableEq κ] (m : SortedMap κ ν) (k k' : κ) (v : ν) :
    (m.insert k' v).get? k = if k = k' then some v else m.get? k :=
  lookup_insertEntry k k' v m.entries

/-! ## Equal lookups, equal maps -/

omit [Std.TransOrd κ] [Std.LawfulEqOrd κ] in
theorem lookup_eq_none_of_lt {k : κ} {l : List (κ × ν)} (h : ∀ e ∈ l, compare k e.1 = .lt) :
    lookup k l = none := by
  induction l with
  | nil => rfl
  | cons e rest ih =>
    have hk : compare k e.1 ≠ .eq := by simp [h e (List.mem_cons_self ..)]
    simp only [lookup, hk, if_false]
    exact ih fun e he => h e (List.mem_cons_of_mem _ he)

theorem entries_eq_of_lookup_eq {l l' : List (κ × ν)}
    (hl : l.Pairwise (fun a b => compare a.1 b.1 = .lt))
    (hl' : l'.Pairwise (fun a b => compare a.1 b.1 = .lt))
    (h : ∀ k, lookup k l = lookup k l') : l = l' := by
  induction l generalizing l' with
  | nil =>
    cases l' with
    | nil => rfl
    | cons e rest => have := h e.1; simp [lookup] at this
  | cons e rest ih =>
    cases l' with
    | nil => have := h e.1; simp [lookup] at this
    | cons e' rest' =>
      obtain ⟨he, hrest⟩ := List.pairwise_cons.1 hl
      obtain ⟨he', hrest'⟩ := List.pairwise_cons.1 hl'
      have hkey : e.1 = e'.1 := by
        rcases hc : compare e.1 e'.1 with _ | _ | _
        · have hnone : lookup e.1 (e' :: rest') = none := by
            refine lookup_eq_none_of_lt fun x hx => ?_
            rcases List.mem_cons.1 hx with rfl | hx
            · exact hc
            · exact Std.TransCmp.lt_trans hc (he' x hx)
          rw [← h] at hnone; simp [lookup] at hnone
        · exact Std.LawfulEqCmp.eq_of_compare hc
        · have hc := Std.OrientedCmp.gt_iff_lt.1 hc
          have hnone : lookup e'.1 (e :: rest) = none := by
            refine lookup_eq_none_of_lt fun x hx => ?_
            rcases List.mem_cons.1 hx with rfl | hx
            · exact hc
            · exact Std.TransCmp.lt_trans hc (he x hx)
          rw [h] at hnone; simp [lookup] at hnone
      have hvalue : e.2 = e'.2 := by
        have := h e.1
        simpa [lookup, hkey] using this
      have htail : rest = rest' := ih hrest hrest' fun k => by
        by_cases hk : compare k e.1 = .eq
        · rw [Std.LawfulEqCmp.eq_of_compare hk, lookup_eq_none_of_lt he, hkey,
            lookup_eq_none_of_lt he']
        · have := h k
          simpa [lookup, hk, hkey ▸ hk] using this
      rw [htail, Prod.ext hkey hvalue]

/-- Two maps that answer every lookup alike are equal. -/
theorem ext_get? {a b : SortedMap κ ν} (h : ∀ k, a.get? k = b.get? k) : a = b :=
  ext (entries_eq_of_lookup_eq a.ascending b.ascending h)

end SortedMap

/-- A finite set, held as a map without information at its keys. -/
abbrev SortedSet (κ : Type) [Ord κ] := SortedMap κ Unit

namespace SortedSet

variable [Std.TransOrd κ] [Std.LawfulEqOrd κ]

/-- Adds an element. -/
def add (s : SortedSet κ) (k : κ) : SortedSet κ := s.insert k ()

/-- The set of the elements of a list. -/
def ofList (l : List κ) : SortedSet κ := l.foldl add SortedMap.empty

end SortedSet

end ActionFlow
