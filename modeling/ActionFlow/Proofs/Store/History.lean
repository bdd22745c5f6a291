import ActionFlow.Proofs.Store.Transactions

/-!
# The history of a store

A store is asked to open, fill, execute or discard a transaction, or to remove rows. A request that
it refuses leaves it as it is (`Store.serve`), so its history is told by the granted requests alone
(`Store.granted`). These fall into chapters: a removal outside of every transaction, a transaction
that was executed and one that was discarded, each with what was asked while it was open. At the
end there may be one more transaction that is still open. What the store shows is what the
executed transactions and the removals leave, in their order (`Store.serveAll_recounts`).
-/

namespace ActionFlow

/-! ## Requests -/

/-- Something that is asked of a store. -/
inductive StoreRequest where
  | call (c : StoreCall)
  | purge (relation : String) (p : Tuple → Bool)

namespace StoreRequest

/-- What a request does to a store; a removal is never refused. -/
def apply (r : StoreRequest) (s : Store) : Except StoreError Store :=
  match r with
  | .call c => c.apply s
  | .purge relation p => .ok (s.purge relation p)

/-- A request after which the store shows what it showed before. -/
def IsQuiet : StoreRequest → Prop
  | .call (.openTransaction _) | .call (.insert _ _ _) | .call (.rollback _) => True
  | .call (.execute _) | .purge _ _ => False

/-- A request fits the open transaction: a second one cannot be opened, and to fill, execute or
discard one it has to be named. -/
def Fits (openName : Option String) : StoreRequest → Prop
  | .call (.openTransaction _) => openName = none
  | .call (.insert name _ _) | .call (.execute name) | .call (.rollback name) =>
    openName = some name
  | .purge _ _ => True

end StoreRequest

namespace Store

/-- The store after a request. One that is refused leaves it as it is. -/
def serve (s : Store) (r : StoreRequest) : Store :=
  match r.apply s with
  | .ok s' => s'
  | .error _ => s

/-- The store after a log of requests. -/
def serveAll (s : Store) (log : List StoreRequest) : Store := log.foldl serve s

/-- The requests of a log that are granted, in their order. -/
def granted (s : Store) : List StoreRequest → List StoreRequest
  | [] => []
  | r :: rest =>
    match r.apply s with
    | .ok s' => r :: s'.granted rest
    | .error _ => s.granted rest

end Store

/-! ## Chapters -/

/-- What can be asked between the opening of a transaction and its end. -/
inductive Interlude where
  | insert (relation : String) (tuples : List Tuple)
  | purge (relation : String) (p : Tuple → Bool)

/-- A change of what a store shows. -/
inductive Change where
  | executed (t : Transaction)
  | purged (relation : String) (p : Tuple → Bool)

/-- The rows of a relation after a change. -/
def Change.on (relation : String) (rows : List Tuple) : Change → List Tuple
  | .executed t => rows ++ t.rows relation
  | .purged name p => if relation = name then rows.filter (!p ·) else rows

namespace Interlude

/-- The request, while a transaction is open. -/
def request (name : String) : Interlude → StoreRequest
  | .insert relation tuples => .call (.insert name relation tuples)
  | .purge relation p => .purge relation p

/-- The rows that are queued. -/
def insert? : Interlude → Option (String × List Tuple)
  | .insert relation tuples => some (relation, tuples)
  | .purge _ _ => none

/-- The rows that are removed. -/
def change? : Interlude → Option Change
  | .insert _ _ => none
  | .purge relation p => some (.purged relation p)

end Interlude

/-- A transaction from its opening on. -/
structure Episode where
  name : String
  /-- What was asked since it was opened. -/
  since : List Interlude

namespace Episode

/-- The requests, the opening first. -/
def requests (e : Episode) : List StoreRequest :=
  .call (.openTransaction e.name) :: e.since.map (·.request e.name)

/-- The rows that were queued since the opening, insert by insert. -/
def transaction (e : Episode) : Transaction := ⟨e.name, e.since.filterMap Interlude.insert?⟩

/-- The removals since the opening. -/
def changes (e : Episode) : List Change := e.since.filterMap Interlude.change?

/-- The transaction as the store keeps it, row by row. -/
def pending (e : Episode) : Pending :=
  ⟨e.name, e.transaction.inserts.flatMap fun i => i.2.map (i.1, ·)⟩

/-- The transaction after one more request. -/
def push (e : Episode) (i : Interlude) : Episode := ⟨e.name, e.since ++ [i]⟩

@[simp] theorem requests_push (e : Episode) (i : Interlude) :
    (e.push i).requests = e.requests ++ [i.request e.name] := by
  simp [requests, push]

@[simp] theorem changes_push (e : Episode) (i : Interlude) :
    (e.push i).changes = e.changes ++ i.change?.toList := by
  cases i <;> simp [changes, push, Interlude.change?]

theorem pending_push_insert (e : Episode) (relation : String) (tuples : List Tuple) :
    (e.push (.insert relation tuples)).pending =
      ⟨e.name, e.pending.inserts ++ tuples.map (relation, ·)⟩ := by
  simp [pending, transaction, push, Interlude.insert?]

theorem pending_push_purge (e : Episode) (relation : String) (p : Tuple → Bool) :
    (e.push (.purge relation p)).pending = e.pending := by
  simp [pending, transaction, push, Interlude.insert?]

end Episode

/-- A part of a history that is over. -/
inductive Chapter where
  | purged (relation : String) (p : Tuple → Bool)
  | executed (e : Episode)
  | rolledBack (e : Episode)

namespace Chapter

/-- The requests of a chapter. -/
def requests : Chapter → List StoreRequest
  | .purged relation p => [.purge relation p]
  | .executed e => e.requests ++ [.call (.execute e.name)]
  | .rolledBack e => e.requests ++ [.call (.rollback e.name)]

/-- The changes in a chapter. The rows of a transaction show only once it is executed, after the
removals that were asked for while it was open, and those of a discarded one never do. -/
def changes : Chapter → List Change
  | .purged relation p => [.purged relation p]
  | .executed e => e.changes ++ [.executed e.transaction]
  | .rolledBack e => e.changes

end Chapter

namespace Store

/-- A history of a store: the granted requests are those of its chapters and of the transaction that
is still open, and it shows what their changes leave. -/
structure Recounts (s : Store) (log : List StoreRequest) (past : List Chapter)
    (current : Option Episode) : Prop where
  requests : log = past.flatMap Chapter.requests ++ current.elim [] Episode.requests
  pending : s.pending = current.map Episode.pending
  tuples : ∀ relation, s.tuples relation =
    (past.flatMap Chapter.changes ++ current.elim [] Episode.changes).foldl (Change.on relation) []

/-- How a store with an open transaction, or none, serves its next request. -/
structure Serves (s : Store) (current : Option Episode) : Prop where
  grants : ∀ r : StoreRequest, (∃ s', r.apply s = .ok s') ↔ r.Fits (current.map (·.name))
  refuses : ∀ (r : StoreRequest) e, r.apply s = .error e → s.serve r = s
  quiet : ∀ r : StoreRequest, r.IsQuiet → ∀ relation,
    (s.serve r).tuples relation = s.tuples relation
  executes : ∀ e, current = some e → ∀ relation,
    (s.serve (.call (.execute e.name))).tuples relation =
      s.tuples relation ++ e.transaction.rows relation

variable {s s' : Store} {log : List StoreRequest} {past : List Chapter} {current : Option Episode}

/-! ## What a granted call does -/

theorem requirePending_eq_ok_iff {name : String} {p : Pending} :
    s.requirePending name = .ok p ↔ s.pending = some p ∧ p.name = name := by
  unfold requirePending
  cases s.pending with
  | none => simp
  | some q =>
    by_cases hname : q.name = name
    · simp only [if_pos hname, Except.ok.injEq, Option.some.injEq]
      exact ⟨fun h => ⟨h, h ▸ hname⟩, And.left⟩
    · simp only [if_neg hname, reduceCtorEq, Option.some.injEq, false_iff]
      rintro ⟨rfl, h⟩
      exact hname h

theorem openTransaction_eq_ok_iff {name : String} :
    s.openTransaction name = .ok s' ↔
      s.pending = none ∧ s' = { s with pending := some ⟨name, []⟩ } := by
  unfold openTransaction
  cases s.pending with
  | none => simp [eq_comm]
  | some p => simp

/-- A call on the open transaction is granted exactly if it names it. -/
theorem requirePending_bind_eq_ok_iff {name : String} {f : Pending → Store} :
    (do let p ← s.requirePending name; return f p : Except StoreError Store) = .ok s' ↔
      ∃ p, s.pending = some p ∧ p.name = name ∧ s' = f p := by
  cases h : s.requirePending name with
  | error e =>
    simp only [bind, Except.bind, reduceCtorEq, false_iff]
    rintro ⟨p, hp, hname, -⟩
    rw [requirePending_eq_ok_iff.2 ⟨hp, hname⟩] at h
    cases h
  | ok p =>
    obtain ⟨hp, hname⟩ := requirePending_eq_ok_iff.1 h
    simp only [bind, Except.bind, pure, Except.pure, Except.ok.injEq, hp, Option.some.injEq,
      exists_eq_left', hname, true_and]
    exact eq_comm

/-- A request is granted exactly if it fits the open transaction. -/
theorem exists_apply_iff (s : Store) (r : StoreRequest) :
    (∃ s', r.apply s = .ok s') ↔ r.Fits s.pendingName := by
  have named : ∀ (name : String) (f : Pending → Store),
      (∃ s', (do let p ← s.requirePending name; return f p : Except StoreError Store) = .ok s') ↔
        s.pendingName = some name := by
    intro name f
    simp only [requirePending_bind_eq_ok_iff, pendingName, Option.map_eq_some_iff]
    constructor
    · rintro ⟨_, p, hp, hname, -⟩
      exact ⟨p, hp, hname⟩
    · rintro ⟨p, hp, hname⟩
      exact ⟨_, p, hp, hname, rfl⟩
  cases r with
  | purge relation p => exact ⟨fun _ => trivial, fun _ => ⟨_, rfl⟩⟩
  | call c =>
    cases c with
    | openTransaction name =>
      show (∃ s', s.openTransaction name = .ok s') ↔ s.pendingName = none
      simp [openTransaction_eq_ok_iff, pendingName]
    | insert name relation tuples => exact named name _
    | execute name => exact named name _
    | rollback name => exact named name _

/-- Executing a transaction appends its rows to every relation. -/
theorem tuples_execute {e : Episode} (hpending : s.pending = some e.pending)
    (h : s.execute e.name = .ok s') (relation : String) :
    s'.tuples relation = s.tuples relation ++ e.transaction.rows relation := by
  obtain ⟨p, hp, -, rfl⟩ := requirePending_bind_eq_ok_iff.1 h
  obtain rfl : e.pending = p := Option.some.inj (hpending.symm.trans hp)
  unfold tuples
  rw [get?_foldl_append]
  exact congrArg _ (queuedFor_flatMap ..)

/-- Only executing a transaction and removing rows change what is shown. -/
theorem relations_of_quiet {r : StoreRequest} (hr : r.IsQuiet) (h : r.apply s = .ok s') :
    s'.relations = s.relations := by
  cases r with
  | purge relation p => exact hr.elim
  | call c =>
    cases c with
    | openTransaction name =>
      obtain ⟨-, rfl⟩ := openTransaction_eq_ok_iff.1 h
      rfl
    | insert name relation tuples =>
      obtain ⟨p, -, -, rfl⟩ := requirePending_bind_eq_ok_iff.1 h
      rfl
    | execute name => exact hr.elim
    | rollback name =>
      obtain ⟨p, -, -, rfl⟩ := requirePending_bind_eq_ok_iff.1 h
      rfl

/-! ## Serving -/

theorem serve_of_ok {r : StoreRequest} (h : r.apply s = .ok s') : s.serve r = s' := by
  unfold serve
  rw [h]

theorem serve_of_error {r : StoreRequest} {e : StoreError} (h : r.apply s = .error e) :
    s.serve r = s := by
  unfold serve
  rw [h]

theorem granted_append (s : Store) (log log' : List StoreRequest) :
    s.granted (log ++ log') = s.granted log ++ (s.serveAll log).granted log' := by
  induction log generalizing s with
  | nil => rfl
  | cons r rest ih =>
    have hrest : s.serveAll (r :: rest) = (s.serve r).serveAll rest := rfl
    rw [List.cons_append, granted, granted, hrest]
    cases happly : r.apply s with
    | ok s' =>
      rw [serve_of_ok happly]
      exact congrArg (r :: ·) (ih s')
    | error e =>
      rw [serve_of_error happly]
      exact ih s

/-- The episode that is open is the pending transaction. -/
theorem Recounts.pendingName (h : s.Recounts log past current) :
    s.pendingName = current.map (·.name) := by
  unfold Store.pendingName
  rw [h.pending, Option.map_map]
  rfl

/-- One granted request continues the history. -/
theorem Recounts.step (h : s.Recounts log past current) {r : StoreRequest}
    (happly : r.apply s = .ok s') :
    ∃ past' current', s'.Recounts (log ++ [r]) past' current' := by
  have hfits := (exists_apply_iff s r).1 ⟨s', happly⟩
  rw [h.pendingName] at hfits
  cases r with
  | purge relation p =>
    obtain rfl : s.purge relation p = s' := Except.ok.inj happly
    have hpending := (pending_purge s relation p).trans h.pending
    cases current with
    | none =>
      refine ⟨past ++ [.purged relation p], none, ?_, hpending, fun name => ?_⟩
      · simp [h.requests, Chapter.requests]
      · rw [tuples_purge, h.tuples]
        simp [Chapter.changes, Change.on]
    | some e =>
      refine ⟨past, some (e.push (.purge relation p)), ?_, ?_, fun name => ?_⟩
      · simp [h.requests, Interlude.request]
      · rw [hpending, Option.map_some, Option.map_some, e.pending_push_purge]
      · rw [tuples_purge, h.tuples]
        simp [Interlude.change?, Change.on]
  | call c =>
    cases c with
    | openTransaction name =>
      obtain rfl : current = none := Option.map_eq_none_iff.1 hfits
      obtain ⟨-, rfl⟩ := openTransaction_eq_ok_iff.1 happly
      refine ⟨past, some ⟨name, []⟩, ?_, rfl, fun relation => ?_⟩
      · simp [h.requests, Episode.requests]
      · exact h.tuples relation
    | insert name relation tuples =>
      obtain ⟨e, rfl, rfl⟩ := Option.map_eq_some_iff.1 hfits
      obtain ⟨p, hp, -, rfl⟩ := requirePending_bind_eq_ok_iff.1 happly
      obtain rfl : e.pending = p := Option.some.inj (h.pending.symm.trans hp)
      refine ⟨past, some (e.push (.insert relation tuples)), ?_, ?_, fun name => ?_⟩
      · simp [h.requests, Interlude.request]
      · rw [Option.map_some, e.pending_push_insert]
        rfl
      · exact (h.tuples name).trans (by simp [Interlude.change?])
    | execute name =>
      obtain ⟨e, rfl, rfl⟩ := Option.map_eq_some_iff.1 hfits
      refine ⟨past ++ [.executed e], none, ?_, ?_, fun relation => ?_⟩
      · simp [h.requests, Chapter.requests]
      · obtain ⟨p, -, -, rfl⟩ := requirePending_bind_eq_ok_iff.1 happly
        rfl
      · rw [tuples_execute h.pending happly, h.tuples]
        simp [Chapter.changes, Change.on]
    | rollback name =>
      obtain ⟨e, rfl, rfl⟩ := Option.map_eq_some_iff.1 hfits
      obtain ⟨p, -, -, rfl⟩ := requirePending_bind_eq_ok_iff.1 happly
      refine ⟨past ++ [.rolledBack e], none, ?_, rfl, fun relation => ?_⟩
      · simp [h.requests, Chapter.requests]
      · exact (h.tuples relation).trans (by simp [Chapter.changes])

/-- A log of requests continues the history. -/
theorem Recounts.run (h : s.Recounts log past current) (rest : List StoreRequest) :
    ∃ past' current', (s.serveAll rest).Recounts (log ++ s.granted rest) past' current' := by
  induction rest generalizing s log past current with
  | nil => exact ⟨past, current, by rwa [granted, List.append_nil]⟩
  | cons r rest ih =>
    unfold serveAll granted
    rw [List.foldl_cons]
    cases happly : r.apply s with
    | ok s' =>
      obtain ⟨past', current', h'⟩ := h.step happly
      rw [serve_of_ok happly, List.append_cons]
      exact ih h'
    | error e =>
      rw [serve_of_error happly]
      exact ih h

theorem Recounts.serves (h : s.Recounts log past current) : s.Serves current where
  grants r := by
    rw [← h.pendingName]
    exact exists_apply_iff s r
  refuses r e := serve_of_error
  quiet r hr relation := by
    unfold Store.tuples
    cases happly : r.apply s with
    | ok s' => rw [serve_of_ok happly, relations_of_quiet hr happly]
    | error e => rw [serve_of_error happly]
  executes e he relation := by
    subst he
    obtain ⟨s', happly⟩ := (exists_apply_iff s (.call (.execute e.name))).2 h.pendingName
    rw [serve_of_ok happly]
    exact tuples_execute h.pending happly relation

/-- **The history of a store.** Whatever is asked of an empty store, its granted requests are
chapters, one after the other, with at most one open transaction at the end, and it shows what the
executed transactions and the removals leave. A request that does not fit is refused and changes
nothing; opening, filling and discarding a transaction changes nothing that is shown; and executing
one appends the rows queued since it was opened. -/
theorem serveAll_recounts (log : List StoreRequest) :
    ∃ past current, (empty.serveAll log).Recounts (empty.granted log) past current ∧
      (empty.serveAll log).Serves current := by
  have hempty : empty.Recounts [] [] none := ⟨rfl, rfl, fun _ => rfl⟩
  obtain ⟨past, current, h⟩ := hempty.run log
  exact ⟨past, current, h, h.serves⟩

end Store

end ActionFlow
