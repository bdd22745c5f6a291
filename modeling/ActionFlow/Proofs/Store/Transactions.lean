import ActionFlow.Compiler
import ActionFlow.Proofs.SortedMap

/-!
# What a transaction leaves in the store

A store is described by the rows of each of its relations (`Store.tuples`). Whichever of its calls
are refused, a transaction is executed as a whole or given up (`commit_cases`). In a store that
refuses nothing and has no transaction open (`TracedStore.Calm`) it always succeeds and appends its
rows in order (`commit_calm`); so does a journal (`replay_calm`). Removing the rows in which an
attribute has a value keeps all others in place (`tuples_purgeAll`).
-/

namespace ActionFlow

/-- The rows that a transaction has for a relation. -/
def Transaction.rows (t : Transaction) (relation : String) : List Tuple :=
  t.inserts.flatMap fun i => if i.1 = relation then i.2 else []

namespace Store

/-! ## Appending -/

/-- The queued rows of a relation. -/
def queuedFor (relation : String) (queued : List (String × Tuple)) : List Tuple :=
  queued.flatMap fun row => if row.1 = relation then [row.2] else []

theorem get?_foldl_append (queued : List (String × Tuple))
    (relations : SortedMap String (List Tuple)) (relation : String) :
    ((queued.foldl append relations).get? relation).getD [] =
      (relations.get? relation).getD [] ++ queuedFor relation queued := by
  induction queued generalizing relations with
  | nil => simp [queuedFor]
  | cons row rest ih =>
    rw [List.foldl_cons, ih]
    unfold append
    rw [SortedMap.get?_insert]
    by_cases h : relation = row.1
    · subst h
      simp [queuedFor]
    · rw [if_neg h]
      simp [queuedFor, Ne.symm h]

theorem queuedFor_map (relation name : String) (tuples : List Tuple) :
    queuedFor relation (tuples.map (name, ·)) = if name = relation then tuples else [] := by
  unfold queuedFor
  induction tuples with
  | nil => simp
  | cons t rest ih =>
    rw [List.map_cons, List.flatMap_cons, ih]
    by_cases h : name = relation <;> simp [h]

/-- What the queued rows of a transaction are, relation by relation. -/
theorem queuedFor_flatMap (relation : String) (inserts : List (String × List Tuple)) :
    queuedFor relation (inserts.flatMap fun i => i.2.map (i.1, ·)) =
      inserts.flatMap fun i => if i.1 = relation then i.2 else [] := by
  induction inserts with
  | nil => rfl
  | cons i rest ih =>
    rw [List.flatMap_cons, List.flatMap_cons, ← ih, ← queuedFor_map]
    exact List.flatMap_append ..

/-! ## Removing -/

theorem tuples_purge (s : Store) (name : String) (p : Tuple → Bool) (relation : String) :
    (s.purge name p).tuples relation =
      if relation = name then (s.tuples relation).filter (!p ·) else s.tuples relation := by
  unfold purge tuples
  cases hget : s.relations.get? name with
  | none =>
    by_cases h : relation = name
    · subst h; simp [hget]
    · rw [if_neg h]
  | some tuples =>
    dsimp only
    rw [SortedMap.get?_insert]
    by_cases h : relation = name
    · subst h; simp [hget]
    · rw [if_neg h, if_neg h]

theorem pending_purge (s : Store) (name : String) (p : Tuple → Bool) :
    (s.purge name p).pending = s.pending := by
  unfold purge
  split <;> rfl

theorem tuples_foldl_purge (names : List String) (p : Tuple → Bool) (s : Store)
    (relation : String) :
    (names.foldl (fun s name => s.purge name p) s).tuples relation =
      if relation ∈ names then (s.tuples relation).filter (!p ·) else s.tuples relation := by
  induction names generalizing s with
  | nil => simp
  | cons name rest ih =>
    rw [List.foldl_cons, ih, tuples_purge]
    by_cases h : relation = name <;> by_cases hrest : relation ∈ rest <;> simp [h, hrest]

theorem pending_foldl_purge (names : List String) (p : Tuple → Bool) (s : Store) :
    (names.foldl (fun s name => s.purge name p) s).pending = s.pending := by
  induction names generalizing s with
  | nil => rfl
  | cons name rest ih => rw [List.foldl_cons, ih, pending_purge]

theorem tuples_eq_nil_of_not_mem {s : Store} {relation : String}
    (h : relation ∉ s.relationNames) : s.tuples relation = [] := by
  unfold tuples
  cases hget : s.relations.get? relation with
  | none => rfl
  | some tuples =>
    cases tuples with
    | nil => rfl
    | cons t rest =>
      refine absurd (List.mem_map.2 ⟨(relation, t :: rest), List.mem_filter.2 ⟨?_, rfl⟩, rfl⟩) h
      exact SortedMap.mem_entries_of_get? hget

end Store

namespace TracedStore

variable {s s' : TracedStore}

/-- All rows in which the attribute has the value are removed, and no others. -/
theorem tuples_purgeAll (s : TracedStore) (attr : String) (v : Value) (relation : String) :
    (s.purgeAll attr v).store.tuples relation =
      (s.store.tuples relation).filter fun t => !Tuple.hasValue t attr v := by
  unfold purgeAll
  dsimp only
  rw [Store.tuples_foldl_purge]
  by_cases h : relation ∈ s.store.relationNames
  · rw [if_pos h]
  · rw [if_neg h, Store.tuples_eq_nil_of_not_mem h]
    rfl

/-! ## Transactions -/

/-- Nothing is refused. -/
def Accepts (s : TracedStore) : Prop := ∀ kind n, s.refuses kind n = false

/-- Nothing is refused, and no transaction is open. -/
structure Calm (s : TracedStore) : Prop where
  accepts : s.Accepts
  idle : s.store.pending = none

/-- A call that the store would take takes effect, or is refused on the way and changes nothing. -/
theorem perform_of_apply {c : StoreCall} {store : Store} (happly : c.apply s.store = .ok store) :
    (∃ s', s.perform c = (.ok (), s') ∧ s'.store = store ∧ s'.refuses = s.refuses) ∨
    ∃ e s', s.perform c = (.error e, s') ∧ s'.store = s.store ∧ s'.refuses = s.refuses ∧
      ∃ n, s.refuses c.kind n = true := by
  unfold perform
  cases hrefused : s.refuses c.kind (s.callCount c.kind + 1) with
  | true => exact Or.inr ⟨_, _, if_pos rfl, rfl, rfl, _, hrefused⟩
  | false =>
    rw [if_neg Bool.false_ne_true]
    dsimp only
    rw [happly]
    exact Or.inl ⟨_, rfl, rfl, rfl⟩

/-- A call that the store would not take fails and changes nothing. -/
theorem perform_of_apply_error {c : StoreCall} {e : StoreError}
    (happly : c.apply s.store = .error e) :
    ∃ e' s', s.perform c = (.error e', s') ∧ s'.store = s.store ∧ s'.refuses = s.refuses := by
  unfold perform
  split
  · exact ⟨_, _, rfl, rfl, rfl⟩
  · dsimp only
    rw [happly]
    exact ⟨_, _, rfl, rfl, rfl⟩

theorem not_accepts_of_refused {kind : CallKind} (h : ∃ n, s.refuses kind n = true) :
    ¬ s.Accepts := by
  intro haccepts
  obtain ⟨n, hn⟩ := h
  rw [haccepts kind n] at hn
  cases hn

/-- Queueing rows in the transaction that is open and executing them. Whichever call is refused, the
rows are still queued in that transaction and no row has been executed. -/
theorem performAll_fill (name : String) (inserts : List (String × List Tuple))
    (queued : List (String × Tuple)) (hpending : s.store.pending = some ⟨name, queued⟩) :
    (∃ s', s.performAll (inserts.map (fun i => .insert name i.1 i.2) ++ [.execute name]) =
        (.ok (), s') ∧ s'.refuses = s.refuses ∧
      s'.store = ⟨(queued ++ inserts.flatMap fun i => i.2.map (i.1, ·)).foldl Store.append
        s.store.relations, none⟩) ∨
    ∃ e s', s.performAll (inserts.map (fun i => .insert name i.1 i.2) ++ [.execute name]) =
        (.error e, s') ∧ s'.refuses = s.refuses ∧ s'.store.relations = s.store.relations ∧
      (∃ queued', s'.store.pending = some ⟨name, queued'⟩) ∧ ¬ s.Accepts := by
  have hrequire : ∀ {store : Store} {q}, store.pending = some ⟨name, q⟩ →
      store.requirePending name = .ok ⟨name, q⟩ := by
    intro store q h
    unfold Store.requirePending
    rw [h]
    exact if_pos rfl
  induction inserts generalizing s queued with
  | nil =>
    have happly : (StoreCall.execute name).apply s.store =
        .ok ⟨queued.foldl Store.append s.store.relations, none⟩ := by
      show s.store.execute name = _
      unfold Store.execute
      rw [hrequire hpending]
      rfl
    show (∃ s', s.performAll [.execute name] = _ ∧ _) ∨
      ∃ e s', s.performAll [.execute name] = _ ∧ _
    unfold performAll
    rcases perform_of_apply happly with
      ⟨s', hperform, hstore, hrefuses⟩ | ⟨e, s', hperform, hstore, hrefuses, hrefused⟩
    · rw [hperform]
      refine Or.inl ⟨s', rfl, hrefuses, ?_⟩
      rw [hstore, List.flatMap_nil, List.append_nil]
    · rw [hperform]
      exact Or.inr ⟨e, s', rfl, hrefuses, by rw [hstore], ⟨queued, by rw [hstore, hpending]⟩,
        not_accepts_of_refused hrefused⟩
  | cons i rest ih =>
    have happly : (StoreCall.insert name i.1 i.2).apply s.store =
        .ok { s.store with pending := some ⟨name, queued ++ i.2.map (i.1, ·)⟩ } := by
      show s.store.insert name i.1 i.2 = _
      unfold Store.insert
      rw [hrequire hpending]
      rfl
    rw [List.map_cons, List.cons_append]
    unfold performAll
    rcases perform_of_apply happly with
      ⟨s₁, hperform, hstore₁, hrefuses⟩ | ⟨e, s₁, hperform, hstore, hrefuses, hrefused⟩
    · rw [hperform]
      dsimp only
      have haccepts : s₁.Accepts ↔ s.Accepts := by
        unfold Accepts
        rw [hrefuses]
      rcases ih (queued ++ i.2.map (i.1, ·)) (by rw [hstore₁]) with
        ⟨s₂, hrest, hrefuses₂, hstore₂⟩ | ⟨e, s₂, hrest, hrefuses₂, hrelations, hqueued, hwhy⟩
      · refine Or.inl ⟨s₂, hrest, hrefuses₂.trans hrefuses, ?_⟩
        rw [hstore₂, hstore₁, List.flatMap_cons, List.append_assoc]
      · refine Or.inr ⟨e, s₂, hrest, hrefuses₂.trans hrefuses, ?_, hqueued, ?_⟩
        · rw [hrelations, hstore₁]
        · rwa [← haccepts]
    · rw [hperform]
      exact Or.inr ⟨e, s₁, rfl, hrefuses, by rw [hstore], ⟨queued, by rw [hstore, hpending]⟩,
        not_accepts_of_refused hrefused⟩

/-- Passing over the relations without rows leaves the rows of a transaction as they are. -/
theorem rows_of_filter (inserts : List (String × List Tuple)) (relation : String) :
    (inserts.filter fun i => !i.2.isEmpty).flatMap (fun i => if i.1 = relation then i.2 else []) =
      inserts.flatMap fun i => if i.1 = relation then i.2 else [] := by
  induction inserts with
  | nil => rfl
  | cons i rest ih =>
    rw [List.filter_cons]
    cases hi : i.2 with
    | nil => simp [hi, ih]
    | cons t ts => simp [hi, ih]

/-- A transaction has been executed: none was open before and none is open now. -/
structure Executed (s : TracedStore) (t : Transaction) (s' : TracedStore) : Prop where
  refuses : s'.refuses = s.refuses
  idleBefore : s.store.pending = none
  idleAfter : s'.store.pending = none
  tuples : ∀ relation, s'.store.tuples relation = s.store.tuples relation ++ t.rows relation

/-- A transaction has been given up: no row has been executed, and if discarding it is never
refused, the store is the one before. -/
structure Abandoned (s s' : TracedStore) : Prop where
  refuses : s'.refuses = s.refuses
  relations : s'.store.relations = s.store.relations
  store : (∀ n, s.refuses .rollback n = false) → s'.store = s.store

/-- Discarding the transaction that was opened in an idle store. -/
theorem abandoned_rollback {name : String} {queued : List (String × Tuple)}
    (hidle : s.store.pending = none) (hrefuses : s'.refuses = s.refuses)
    (hrelations : s'.store.relations = s.store.relations)
    (hpending : s'.store.pending = some ⟨name, queued⟩) :
    s.Abandoned (s'.perform (.rollback name)).2 := by
  have happly : (StoreCall.rollback name).apply s'.store = .ok ⟨s'.store.relations, none⟩ := by
    show s'.store.rollback name = _
    unfold Store.rollback Store.requirePending
    rw [hpending]
    dsimp only
    rw [if_pos rfl]
    rfl
  rw [hrelations, ← hidle] at happly
  rcases perform_of_apply happly with
    ⟨s₂, hperform, hstore, hrefuses₂⟩ | ⟨e, s₂, hperform, hstore, hrefuses₂, n, hrefused⟩
  · rw [hperform]
    exact ⟨hrefuses₂.trans hrefuses, by rw [hstore], fun _ => hstore⟩
  · rw [hperform]
    refine ⟨hrefuses₂.trans hrefuses, by rw [hstore, hrelations], fun hrollback => ?_⟩
    change s'.refuses .rollback n = true at hrefused
    rw [hrefuses, hrollback] at hrefused
    cases hrefused

/-- **A transaction** is executed as a whole or given up, and it is given up only if a call was
refused or another transaction was open. -/
theorem commit_cases (s : TracedStore) (t : Transaction) :
    (∃ s', s.commit t = (.ok (), s') ∧ s.Executed t s') ∨
    ∃ e s', s.commit t = (.error e, s') ∧ s.Abandoned s' ∧ ¬ s.Calm := by
  unfold commit
  cases hpending : s.store.pending with
  | some p =>
    have happly : (StoreCall.openTransaction t.name).apply s.store =
        .error (.transactionAlreadyOpen p.name t.name) := by
      show s.store.openTransaction t.name = _
      unfold Store.openTransaction
      rw [hpending]
    obtain ⟨e, s₁, hperform, hstore, hrefuses⟩ := perform_of_apply_error happly
    rw [hperform]
    refine Or.inr ⟨e, s₁, rfl, ⟨hrefuses, by rw [hstore], fun _ => hstore⟩, fun hcalm => ?_⟩
    rw [hcalm.idle] at hpending
    cases hpending
  | none =>
    have happly : (StoreCall.openTransaction t.name).apply s.store =
        .ok ⟨s.store.relations, some ⟨t.name, []⟩⟩ := by
      show s.store.openTransaction t.name = _
      unfold Store.openTransaction
      rw [hpending]
    rcases perform_of_apply happly with
      ⟨s₁, hperform, hstore₁, hrefuses⟩ | ⟨e, s₁, hperform, hstore, hrefuses, hrefused⟩
    · rw [hperform]
      dsimp only
      unfold fillCalls
      rcases performAll_fill t.name (t.inserts.filter fun i => !i.2.isEmpty) []
          (show s₁.store.pending = some ⟨t.name, []⟩ by rw [hstore₁]) with
        ⟨s₂, hfill, hrefuses₂, hstore₂⟩ |
        ⟨e, s₂, hfill, hrefuses₂, hrelations, ⟨queued, hqueued⟩, hwhy⟩
      · rw [hfill]
        refine Or.inl ⟨s₂, rfl, hrefuses₂.trans hrefuses, hpending, by rw [hstore₂], ?_⟩
        intro relation
        unfold Store.tuples Transaction.rows
        rw [hstore₂, hstore₁, List.nil_append, Store.get?_foldl_append, Store.queuedFor_flatMap,
          rows_of_filter]
      · rw [hfill]
        dsimp only
        rw [if_pos (by unfold Store.pendingName; rw [hqueued]; rfl)]
        refine Or.inr ⟨e, _, rfl, ?_, fun hcalm => hwhy fun kind n => ?_⟩
        · exact abandoned_rollback hpending (hrefuses₂.trans hrefuses)
            (by rw [hrelations, hstore₁]) hqueued
        · rw [hrefuses]
          exact hcalm.accepts kind n
    · rw [hperform]
      exact Or.inr ⟨e, s₁, rfl, ⟨hrefuses, by rw [hstore], fun _ => hstore⟩,
        fun hcalm => not_accepts_of_refused hrefused hcalm.accepts⟩

/-- In a calm store a transaction appends its rows. -/
theorem commit_calm (hs : s.Calm) (t : Transaction) :
    ∃ s', s.commit t = (.ok (), s') ∧ s'.Calm ∧
      ∀ relation, s'.store.tuples relation = s.store.tuples relation ++ t.rows relation := by
  rcases commit_cases s t with ⟨s', hcommit, hdone⟩ | ⟨e, s', -, -, hwhy⟩
  · refine ⟨s', hcommit, ⟨fun kind n => ?_, hdone.idleAfter⟩, hdone.tuples⟩
    rw [hdone.refuses]
    exact hs.accepts kind n
  · exact absurd hs hwhy

/-- **A journal** replayed in a calm store appends the rows of its transactions. -/
theorem replay_calm (hs : s.Calm) (path : String) (journal : List JournalEntry) :
    ∃ s', s.replay path journal = (.ok (), s') ∧ s'.Calm ∧
      ∀ relation, s'.store.tuples relation =
        s.store.tuples relation ++ journal.flatMap (·.transaction.rows relation) := by
  induction journal generalizing s with
  | nil => exact ⟨s, rfl, hs, fun relation => by simp⟩
  | cons entry rest ih =>
    obtain ⟨s₁, hcommit, hs₁, htuples₁⟩ := commit_calm hs entry.transaction
    obtain ⟨s₂, hreplay, hs₂, htuples₂⟩ := ih hs₁
    refine ⟨s₂, ?_, hs₂, fun relation => ?_⟩
    · unfold replay
      rw [hcommit]
      exact hreplay
    · rw [htuples₂, htuples₁, List.flatMap_cons, List.append_assoc]

theorem pending_forget (s : TracedStore) (anum : String) :
    (s.forget anum).store.pending = s.store.pending := by
  unfold forget purgeAll
  exact Store.pending_foldl_purge ..

theorem Calm.forget (hs : s.Calm) (anum : String) : (s.forget anum).Calm :=
  ⟨hs.accepts, by rw [pending_forget, hs.idle]⟩

end TracedStore

end ActionFlow
