import ActionFlow.Json.Basic
import ActionFlow.Proofs.SortedMap
import Mathlib.Data.List.Basic

/-!
# Reading what was written

Each reader of structured values against the writer that it belongs to. A scalar is read back
(`int64?_int`, `count?_ofNat`), and so is a list (`list?_ofList`), an optional value
(`option?_ofOption`) or the entries of a map (`entries?_obj`) if its parts are. A record of distinct
fields gives its members back in every layout (`ofJson?_obj`, `ofContents?_obj`), of which a field
is then found by its name (`field_cons`, `fieldD_cons`).
-/

namespace ActionFlow

namespace Json

/-! ## Scalars -/

-- Not by `rfl`: `simp` discharges hypotheses with these, where it does not look into definitions.

@[simp] theorem text?_str (s : String) : (str s).text? = some s := by simp [text?]

@[simp] theorem text?_null : null.text? = none := by simp [text?]

@[simp] theorem bool?_bool (b : Bool) : (bool b).bool? = some b := rfl

@[simp] theorem int64?_int (n : Int64) : (int n.toInt).int64? = some n := by
  have hlo : Int64.minValue.toInt ≤ n.toInt := Int64.minValue_le_toInt n
  have hhi : n.toInt ≤ Int64.maxValue.toInt := by
    have := n.toInt_lt
    simp only [Int64.toInt_maxValue]
    omega
  show (if Int64.minValue.toInt ≤ n.toInt ∧ n.toInt ≤ Int64.maxValue.toInt then
    some (Int64.ofInt n.toInt) else none) = some n
  rw [if_pos ⟨hlo, hhi⟩, Int64.ofInt_toInt]

theorem count?_ofNat {n : Nat} (h : n < UInt32.size) : (ofNat n).count? = some n := if_pos h

@[simp] theorem uint32?_ofNat (n : UInt32) : (ofNat n.toNat).uint32? = some n := by
  rw [uint32?, count?_ofNat n.toNat_lt, Option.map_some, UInt32.ofNat_toNat]

@[simp] theorem uint32?_null : null.uint32? = none := by simp [uint32?, count?]

theorem key?_toString {n : Nat} (h : n < UInt32.size) : key? (toString n) = some n := by
  have hvalue : Nat.ofDigitChars 10 (toString n).toList 0 = n := by
    rw [Nat.toString_eq_ofList_toDigits, String.toList_ofList, Nat.ofDigitChars_ten_toDigits]
  rw [key?, hvalue]
  exact if_pos ⟨rfl, h⟩

/-! ## Composite values -/

section Composite

variable {α : Type} {read : Json → Option α} {write : α → Json}

theorem mapM_map_eq_some {β : Type} {f : β → Option α} {g : α → β} {l : List α}
    (h : ∀ x ∈ l, f (g x) = some x) : (l.map g).mapM f = some l := by
  induction l with
  | nil => rfl
  | cons x rest ih =>
    obtain ⟨hx, hrest⟩ := List.forall_mem_cons.1 h
    simp [hx, ih hrest]

@[simp] theorem list?_ofList {l : List α} (h : ∀ x ∈ l, read (write x) = some x) :
    (ofList write l).list? read = some l :=
  mapM_map_eq_some h

@[simp] theorem list?_ofTexts (l : List String) : (ofTexts l).list? text? = some l :=
  list?_ofList fun _ _ => rfl

@[simp] theorem texts?_ofTexts (l : List String) : (ofTexts l).texts? = some l := list?_ofTexts l

/-- Null stands for the absence of a value because it is not the form of one. -/
@[simp] theorem option?_ofOption {o : Option α} (hnull : read .null = none)
    (h : ∀ x ∈ o, read (write x) = some x) : (ofOption write o).option? read = some o := by
  cases o with
  | none => rfl
  | some x =>
    have hx := h x rfl
    show option? read (write x) = some (some x)
    cases hw : write x with
    | null => rw [hw, hnull] at hx; cases hx
    | _ => rw [hw] at hx; simp only [option?, hx, Option.map_some]

theorem entries?_obj {κ : Type} {key : String → Option κ} (name : κ → String) {l : List (κ × α)}
    (hkey : ∀ e ∈ l, key (name e.1) = some e.1) (h : ∀ e ∈ l, read (write e.2) = some e.2) :
    (obj (l.map fun e => (name e.1, write e.2))).entries? key read = some l :=
  mapM_map_eq_some fun e he => by simp [hkey e he, h e he]

@[simp] theorem pair?_arr {β : Type} (first : Json → Option α) (second : Json → Option β)
    (a b : Json) : pair? first second (arr [a, b]) = do return (← first a, ← second b) := rfl

@[simp] theorem variant?_str (name : String) : (str name).variant? = some (name, null) := rfl

@[simp] theorem variant?_variant (name : String) (contents : Json) :
    (variant name contents).variant? = some (name, contents) := rfl

end Composite

/-! ## Depth -/

@[simp] theorem depth_variant (name : String) (contents : Json) :
    (variant name contents).depth = contents.depth + 1 := by
  simp [variant, depth, depthOfMembers]

theorem depth_le_depthOfItems {j : Json} {items : List Json} (h : j ∈ items) :
    j.depth ≤ depthOfItems items := by
  induction items with
  | nil => cases h
  | cons i rest ih =>
    rw [depthOfItems]
    rcases List.mem_cons.1 h with rfl | h
    · exact Nat.le_max_left _ _
    · exact Nat.le_trans (ih h) (Nat.le_max_right _ _)

/-! ## Values that can be read as a whole -/

theorem areProper_map {α : Type} {write : α → Json} {l : List α}
    (h : ∀ x, (write x).isProper = true) : areProper (l.map write) = true := by
  induction l with
  | nil => rfl
  | cons x rest ih => simp [areProper, h x, ih]

@[simp] theorem isProper_ofList {α : Type} {write : α → Json} (h : ∀ x, (write x).isProper = true)
    (l : List α) : (ofList write l).isProper = true :=
  areProper_map h

@[simp] theorem isProper_ofTexts (l : List String) : (ofTexts l).isProper = true :=
  areProper_map fun _ => rfl

@[simp] theorem isProper_ofOption {α : Type} {write : α → Json} (h : ∀ x, (write x).isProper = true)
    (o : Option α) : (ofOption write o).isProper = true := by
  cases o with
  | none => rfl
  | some x => exact h x

end Json

/-! ## Records -/

namespace Record

variable {fields : List String} {members : Record}

@[simp] theorem ofObject?_obj (h : (members.map Prod.fst).Nodup) :
    ofObject? fields (.obj members) = some members := by
  have hpairwise : members.Pairwise fun a b => a.1 ≠ b.1 := List.pairwise_map.1 h
  rw [ofObject?, if_pos (hpairwise.filter _)]

@[simp] theorem ofJson?_obj (h : (members.map Prod.fst).Nodup) :
    ofJson? fields (.obj members) = some members :=
  ofObject?_obj h

@[simp] theorem ofWhole?_obj (h : (members.map Prod.fst).Nodup) :
    ofWhole? fields (.obj members) = some members :=
  ofObject?_obj h

@[simp] theorem ofContents?_obj (layout : Layout) (h : (members.map Prod.fst).Nodup) :
    ofContents? layout fields (.obj members) = some members := by
  cases layout with
  | named => exact ofObject?_obj h
  | ordered => exact ofJson?_obj h

@[simp] theorem ofJson?_null : ofJson? fields .null = none := by simp [ofJson?, ofObject?]

variable {α : Type} {read : Json → Option α}

@[simp] theorem field_cons (r : Record) (name other : String) (j : Json) :
    field ((other, j) :: r) name read = if name = other then read j else field r name read := by
  unfold field
  by_cases h : name = other
  · simp [h]
  · rw [if_neg h, List.lookup_cons, beq_eq_false_iff_ne.2 h]

@[simp] theorem fieldD_cons (r : Record) (name other : String) (j : Json) (absent : α) :
    fieldD ((other, j) :: r) name read absent =
      if name = other then read j else fieldD r name read absent := by
  unfold fieldD
  by_cases h : name = other
  · simp [h]
  · rw [if_neg h, List.lookup_cons, beq_eq_false_iff_ne.2 h]

@[simp] theorem optional_cons (r : Record) (name other : String) (j : Json) :
    optional ((other, j) :: r) name read =
      if name = other then j.option? read else optional r name read :=
  fieldD_cons r name other j none

@[simp] theorem list_cons (r : Record) (name other : String) (j : Json) :
    list ((other, j) :: r) name read =
      if name = other then j.list? read else list r name read :=
  fieldD_cons r name other j []

end Record

end ActionFlow
