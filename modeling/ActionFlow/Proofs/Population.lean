import ActionFlow.Population
import ActionFlow.Proofs.SortedMap

/-!
# Every row carries the number of its activity

The rows of an activity are removed by its number, so every row that is written has to carry it
(`Transaction.Carries`). A row is a list of entries behind the number; it carries the number because
no other entry has that name (`activityRow_carries`).
-/

namespace ActionFlow

/-- The row is one of the activity with a number. -/
def Tuple.Carries (t : Tuple) (anum : String) : Prop := t.get? "Anum" = some (.text anum)

/-- All rows of a transaction are rows of the activity with a number. -/
def Transaction.Carries (t : Transaction) (anum : String) : Prop :=
  ∀ i ∈ t.inserts, ∀ row ∈ i.2, Tuple.Carries row anum

variable {anum : String}

theorem activityRow_carries {entries : List (String × Value)}
    (h : "Anum" ∉ entries.map Prod.fst) : Tuple.Carries (activityRow anum entries) anum :=
  SortedMap.get?_ofList_cons h

theorem flowRow_carries (f : Flow) : Tuple.Carries (flowRow anum f) anum :=
  activityRow_carries (by simp)

theorem detailRow_carries {id : ActionId} {entries : List (String × Value)}
    (h : "Anum" ∉ entries.map Prod.fst) : Tuple.Carries (detailRow anum id entries) anum := by
  refine activityRow_carries ?_
  rw [List.map_cons, List.mem_cons, not_or]
  exact ⟨by simp, h⟩

theorem kindRow_carries (a : Action) : Tuple.Carries (kindRow anum a) anum := by
  refine activityRow_carries ?_
  rw [List.map_cons, List.mem_cons, not_or]
  refine ⟨by simp, ?_⟩
  -- no kind of action tells anything under the name of the number
  cases a.kind <;> simp [ActionKind.attributes]

theorem forall_carries_map {α : Type} {l : List α} {row : α → Tuple}
    (h : ∀ x, Tuple.Carries (row x) anum) : ∀ t ∈ l.map row, Tuple.Carries t anum := by
  intro t ht
  obtain ⟨x, -, rfl⟩ := List.mem_map.1 ht
  exact h x

/-! ## Transactions -/

theorem activityTransaction_carries (a : Activity) : (activityTransaction a).Carries a.anum := by
  intro i hi row hrow
  rw [List.mem_singleton.1 hi] at hrow
  rw [List.mem_singleton.1 hrow]
  exact activityRow_carries (by simp)

theorem seedTransaction_carries (f : Flow) : (seedTransaction anum f).Carries anum := by
  intro i hi row hrow
  rw [List.mem_singleton.1 hi] at hrow
  rw [List.mem_singleton.1 hrow]
  exact flowRow_carries f

theorem actionTransaction_carries (g : Graph) (a : Action) :
    (actionTransaction anum g a).Carries anum := by
  unfold Transaction.Carries actionTransaction
  simp only [List.forall_mem_cons]
  refine ⟨?_, ?_, ?_, ?_, ?_, ?_, ?_, ?_, ?_, by simp⟩
  · exact ⟨activityRow_carries (by simp), by simp⟩
  · exact ⟨kindRow_carries a, by simp⟩
  · exact forall_carries_map fun f => detailRow_carries (by simp)
  · exact forall_carries_map fun f => flowRow_carries _
  · exact forall_carries_map fun h => detailRow_carries (by simp)
  · exact forall_carries_map fun c => detailRow_carries (by simp)
  · exact forall_carries_map fun c => detailRow_carries (by simp)
  · exact forall_carries_map fun c => detailRow_carries (by simp)
  · exact forall_carries_map fun s => detailRow_carries (by simp)

theorem labelsTransaction_carries (g : Graph) : (labelsTransaction anum g).Carries anum := by
  intro i hi row hrow
  rw [List.mem_singleton.1 hi] at hrow
  obtain ⟨f, -, hlabel⟩ := List.mem_filterMap.1 hrow
  obtain ⟨label, -, rfl⟩ := Option.map_eq_some_iff.1 hlabel
  exact activityRow_carries (by simp)

theorem scheduleTransaction_carries (g : Graph) (s : Schedule) :
    (scheduleTransaction anum g s).Carries anum := by
  unfold Transaction.Carries scheduleTransaction
  simp only [List.forall_mem_cons]
  refine ⟨?_, ?_, by simp⟩
  · exact forall_carries_map fun d => activityRow_carries (by simp)
  · intro row hrow
    obtain ⟨w, -, hw⟩ := List.mem_flatMap.1 hrow
    exact forall_carries_map (fun id => activityRow_carries (by simp)) row hw

end ActionFlow
