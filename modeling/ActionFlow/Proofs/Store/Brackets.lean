import ActionFlow.Proofs.Store.History

/-!
# The calls of a journal

A transaction is committed by a bracket of calls: it is opened, filled and executed, or discarded if
a call in between is refused (`Bracket.calls`). Of the calls that are made, only those take effect
that reach the store and are granted by it (`TracedStore.Performs`). If no transaction is open on
entry and discarding one is never refused, the calls of a commitment that take effect are one whole
bracket or none (`commit_performs`). Those of a journal are the brackets of its transactions, up to
the first that fails (`Follows`, `replay_performs`).
-/

namespace ActionFlow

/-- The calls of a trace that reached the store. -/
def reached (calls : List TracedCall) : List StoreRequest :=
  (calls.filter fun c => !c.refused).map fun c => .call c.call

/-- The calls that concern one transaction, from its opening to its end. -/
structure Bracket where
  name : String
  /-- The rows that are queued, call by call. -/
  inserts : List (String × List Tuple)
  /-- Whether the transaction is executed in the end, rather than discarded. -/
  executed : Bool
deriving DecidableEq

/-- The calls of a bracket. -/
def Bracket.calls (b : Bracket) : List StoreCall :=
  .openTransaction b.name :: b.inserts.map (fun i => .insert b.name i.1 i.2)
    ++ [if b.executed then .execute b.name else .rollback b.name]

/-- The bracket that executes a transaction: relations without rows are passed over. -/
def Transaction.bracket (t : Transaction) : Bracket :=
  ⟨t.name, t.inserts.filter fun i => !i.2.isEmpty, true⟩

/-- Transactions are executed in turn. There may be an end to that before the last one, and the one
at which it ends may have been begun and discarded. -/
inductive Follows : List Transaction → List Bracket → Prop where
  | stop (ts : List Transaction) : Follows ts []
  | discard (t : Transaction) (ts : List Transaction) {inserts : List (String × List Tuple)}
      (h : inserts <+: t.bracket.inserts) : Follows (t :: ts) [⟨t.name, inserts, false⟩]
  | next (t : Transaction) {ts : List Transaction} {bs : List Bracket} (h : Follows ts bs) :
      Follows (t :: ts) (t.bracket :: bs)

namespace Follows

variable {ts us : List Transaction} {bs : List Bracket}

theorem all (ts : List Transaction) : Follows ts (ts.map Transaction.bracket) := by
  induction ts with
  | nil => exact .stop []
  | cons t rest ih => exact .next t ih

/-- Transactions that have all been executed come before. -/
theorem append (us : List Transaction) (h : Follows ts bs) :
    Follows (us ++ ts) (us.map Transaction.bracket ++ bs) := by
  induction us with
  | nil => exact h
  | cons u rest ih => exact .next u ih

/-- Transactions that are not reached come after. -/
theorem append_right (us : List Transaction) (h : Follows ts bs) : Follows (ts ++ us) bs := by
  induction h with
  | stop ts => exact .stop _
  | discard t ts h => exact .discard t _ h
  | next t _ ih => exact .next t ih

theorem names (h : Follows ts bs) : bs.map (·.name) <+: ts.map (·.name) := by
  induction h with
  | stop ts => exact List.nil_prefix
  | discard t ts _ => exact List.cons_prefix_cons.2 ⟨rfl, List.nil_prefix⟩
  | next t _ ih => exact List.cons_prefix_cons.2 ⟨rfl, ih⟩

/-- No call queues nothing. -/
theorem inserts_ne_nil (h : Follows ts bs) : ∀ b ∈ bs, ∀ i ∈ b.inserts, i.2 ≠ [] := by
  have hfilled : ∀ t : Transaction, ∀ i ∈ t.bracket.inserts, i.2 ≠ [] := by
    intro t i hi
    simpa using (List.mem_filter.1 hi).2
  induction h with
  | stop ts => nofun
  | discard t ts hinserts =>
    intro b hb i hi
    rw [List.mem_singleton] at hb
    subst hb
    exact hfilled t i (hinserts.subset hi)
  | next t _ ih => exact List.forall_mem_cons.2 ⟨hfilled t, ih⟩

/-- Only the last transaction can have been discarded. -/
theorem executed (h : Follows ts bs) : ∀ b ∈ bs.dropLast, b.executed = true := by
  induction h with
  | stop ts => nofun
  | discard t ts _ => nofun
  | @next t ts bs _ ih =>
    intro b hb
    cases bs with
    | nil => cases hb
    | cons b' rest =>
      rw [List.dropLast_cons_of_ne_nil (List.cons_ne_nil _ _)] at hb
      rcases List.mem_cons.1 hb with rfl | hb
      · rfl
      · exact ih b hb

end Follows

namespace TracedStore

variable {s s' s'' : TracedStore} {calls calls' : List StoreCall}

/-- Of the calls made on the way from one store to another, these took effect. -/
structure Performs (s : TracedStore) (calls : List StoreCall) (s' : TracedStore) : Prop where
  refuses : s'.refuses = s.refuses
  traced : ∃ made, s'.calls = s.calls ++ made ∧
    s.store.granted (reached made) = calls.map .call ∧ s.store.serveAll (reached made) = s'.store

/-- No transaction is open, and discarding one is never refused. -/
structure Idle (s : TracedStore) : Prop where
  pending : s.store.pending = none
  rollback : ∀ n, s.refuses .rollback n = false

theorem Performs.refl (s : TracedStore) : s.Performs [] s :=
  ⟨rfl, [], (List.append_nil _).symm, rfl, rfl⟩

theorem Performs.trans (h : s.Performs calls s') (h' : s'.Performs calls' s'') :
    s.Performs (calls ++ calls') s'' := by
  refine ⟨h'.refuses.trans h.refuses, ?_⟩
  obtain ⟨made, hcalls, hgranted, hstore⟩ := h.traced
  obtain ⟨made', hcalls', hgranted', hstore'⟩ := h'.traced
  have hreached : reached (made ++ made') = reached made ++ reached made' := by
    simp [reached]
  refine ⟨made ++ made', by rw [hcalls', hcalls, List.append_assoc], ?_, ?_⟩
  · rw [hreached, Store.granted_append, hgranted, hstore, hgranted', List.map_append]
  · rw [hreached, Store.serveAll, List.foldl_append]
    rw [Store.serveAll] at hstore hstore'
    rw [hstore, hstore']

theorem Performs.idle (h : s.Performs calls s') (hs : s.Idle)
    (hpending : s'.store.pending = none) : s'.Idle :=
  ⟨hpending, fun n => by rw [h.refuses, hs.rollback n]⟩

/-- A call that is refused on the way or by the store takes no effect. -/
theorem perform_performs (s : TracedStore) (c : StoreCall) :
    (∃ s', s.perform c = (.ok (), s') ∧ s.Performs [c] s' ∧ c.apply s.store = .ok s'.store) ∨
    ∃ e s', s.perform c = (.error e, s') ∧ s.Performs [] s' ∧ s'.store = s.store ∧
      ((∃ n, s.refuses c.kind n = true) ∨ c.apply s.store = .error e) := by
  unfold perform
  cases hrefused : s.refuses c.kind (s.callCount c.kind + 1) with
  | true =>
    rw [if_pos rfl]
    exact Or.inr ⟨_, _, rfl, ⟨rfl, [⟨c, true⟩], rfl, rfl, rfl⟩, rfl, Or.inl ⟨_, hrefused⟩⟩
  | false =>
    rw [if_neg Bool.false_ne_true]
    dsimp only
    have hreached : reached [⟨c, false⟩] = [.call c] := rfl
    have hrequest : StoreRequest.apply (.call c) s.store = c.apply s.store := rfl
    cases happly : c.apply s.store with
    | ok store =>
      rw [happly] at hrequest
      refine Or.inl ⟨_, rfl, ⟨rfl, [⟨c, false⟩], rfl, ?_, ?_⟩, rfl⟩
      · rw [hreached, Store.granted, hrequest]
        rfl
      · rw [hreached]
        exact Store.serve_of_ok hrequest
    | error e =>
      rw [happly] at hrequest
      refine Or.inr ⟨e, _, rfl, ⟨rfl, [⟨c, false⟩], rfl, ?_, ?_⟩, rfl, Or.inr rfl⟩
      · rw [hreached, Store.granted, hrequest]
        rfl
      · rw [hreached]
        exact Store.serve_of_error hrequest

/-- Queueing rows in the open transaction and executing it: all of these calls take effect, or some
of the first ones, and then the transaction is still open. -/
theorem performAll_performs {name : String} {queued : List (String × Tuple)}
    (hpending : s.store.pending = some ⟨name, queued⟩) (inserts : List (String × List Tuple)) :
    (∃ s', s.performAll (inserts.map (fun i => .insert name i.1 i.2) ++ [.execute name]) =
        (.ok (), s') ∧ s'.store.pending = none ∧
      s.Performs (inserts.map (fun i => .insert name i.1 i.2) ++ [.execute name]) s') ∨
    ∃ e s' queued' done, s.performAll (inserts.map (fun i => .insert name i.1 i.2) ++
        [.execute name]) = (.error e, s') ∧ s'.store.pending = some ⟨name, queued'⟩ ∧
      done <+: inserts ∧ s.Performs (done.map fun i => .insert name i.1 i.2) s' := by
  induction inserts generalizing s queued with
  | nil =>
    rw [List.map_nil, List.nil_append, performAll]
    rcases s.perform_performs (.execute name) with
      ⟨s₁, hperform, hdone, happly⟩ | ⟨e, s₁, hperform, hnone, hstore, -⟩
    · rw [hperform]
      obtain ⟨p, -, -, hs₁⟩ := Store.requirePending_bind_eq_ok_iff.1 happly
      exact Or.inl ⟨s₁, rfl, congrArg Store.pending hs₁, hdone⟩
    · rw [hperform]
      exact Or.inr ⟨e, s₁, queued, [], rfl, by rw [hstore, hpending], List.nil_prefix, hnone⟩
  | cons i inserts ih =>
    rw [List.map_cons, List.cons_append, performAll]
    rcases s.perform_performs (.insert name i.1 i.2) with
      ⟨s₁, hperform, hfirst, happly⟩ | ⟨e, s₁, hperform, hnone, hstore, -⟩
    · rw [hperform]
      obtain ⟨p, hp, -, hs₁⟩ := Store.requirePending_bind_eq_ok_iff.1 happly
      obtain rfl : ⟨name, queued⟩ = p := Option.some.inj (hpending.symm.trans hp)
      rcases ih (congrArg Store.pending hs₁) with
        ⟨s₂, hall, hidle, hrest⟩ | ⟨e, s₂, queued₂, done, hall, hopen, hdone, hrest⟩
      · exact Or.inl ⟨s₂, hall, hidle, hfirst.trans hrest⟩
      · refine Or.inr ⟨e, s₂, queued₂, i :: done, hall, hopen, ?_, hfirst.trans hrest⟩
        exact List.cons_prefix_cons.2 ⟨rfl, hdone⟩
    · rw [hperform]
      exact Or.inr ⟨e, s₁, queued, [], rfl, by rw [hstore, hpending], List.nil_prefix, hnone⟩

/-- Discarding the open transaction, which is never refused. -/
theorem rollback_performs {name : String} {queued : List (String × Tuple)}
    (hpending : s.store.pending = some ⟨name, queued⟩)
    (hrollback : ∀ n, s.refuses .rollback n = false) :
    s.Performs [.rollback name] (s.perform (.rollback name)).2 ∧
      (s.perform (.rollback name)).2.store.pending = none := by
  have happly : (StoreCall.rollback name).apply s.store = .ok { s.store with pending := none } :=
    Store.requirePending_bind_eq_ok_iff.2 ⟨_, hpending, rfl, rfl⟩
  rcases s.perform_performs (.rollback name) with
    ⟨s₁, hperform, hdone, hs₁⟩ | ⟨e, s₁, hperform, -, -, ⟨n, hrefused⟩ | hfailed⟩
  · rw [hperform]
    refine ⟨hdone, ?_⟩
    rw [happly] at hs₁
    exact (congrArg Store.pending (Except.ok.inj hs₁)).symm
  · change s.refuses .rollback n = true at hrefused
    rw [hrollback] at hrefused
    cases hrefused
  · rw [happly] at hfailed
    cases hfailed

/-- **A commitment** is a whole bracket: the transaction is executed, or it is discarded after some
of its rows have been queued, or it has not even been opened. -/
theorem commit_performs (hs : s.Idle) (t : Transaction) :
    (∃ s', s.commit t = (.ok (), s') ∧ s'.Idle ∧ s.Performs t.bracket.calls s') ∨
    ∃ e s' bs, s.commit t = (.error e, s') ∧ s'.Idle ∧ Follows [t] bs ∧
      s.Performs (bs.flatMap Bracket.calls) s' := by
  unfold commit
  rcases s.perform_performs (.openTransaction t.name) with
    ⟨s₁, hperform, hopen, happly⟩ | ⟨e, s₁, hperform, hnone, hstore, -⟩
  · obtain ⟨-, hs₁⟩ := Store.openTransaction_eq_ok_iff.1 happly
    rw [hperform]
    dsimp only
    rcases performAll_performs (congrArg Store.pending hs₁) t.bracket.inserts with
      ⟨s₂, hfill, hidle, hrest⟩ | ⟨e, s₂, queued, done, hfill, hpending, hdone, hrest⟩
    · rw [show s₁.performAll (fillCalls t) = _ from hfill]
      have hall := hopen.trans hrest
      exact Or.inl ⟨s₂, rfl, hall.idle hs hidle, hall⟩
    · rw [show s₁.performAll (fillCalls t) = _ from hfill]
      dsimp only
      rw [if_pos (by rw [Store.pendingName, hpending]; rfl)]
      have hbegun := hopen.trans hrest
      obtain ⟨hrollback, hidle⟩ := rollback_performs hpending
        fun n => by rw [hbegun.refuses, hs.rollback n]
      have hall := hbegun.trans hrollback
      refine Or.inr ⟨e, _, _, rfl, hall.idle hs hidle, .discard t [] hdone, ?_⟩
      rw [List.flatMap_singleton]
      exact hall
  · rw [hperform]
    exact Or.inr ⟨e, s₁, [], rfl, hnone.idle hs (by rw [hstore, hs.pending]), .stop _, hnone⟩

/-- **A journal** is a sequence of brackets, all of them executed if it succeeds. -/
theorem replay_performs (hs : s.Idle) (path : String) (journal : List JournalEntry) :
    ∃ bs, (s.replay path journal).2.Idle ∧ Follows (journal.map (·.transaction)) bs ∧
      s.Performs (bs.flatMap Bracket.calls) (s.replay path journal).2 ∧
      ((s.replay path journal).1 = .ok () →
        bs = (journal.map (·.transaction)).map Transaction.bracket) := by
  induction journal generalizing s with
  | nil => exact ⟨[], hs, .stop _, .refl s, fun _ => rfl⟩
  | cons entry rest ih =>
    unfold replay
    rcases commit_performs hs entry.transaction with
      ⟨s₁, hcommit, hs₁, hfirst⟩ | ⟨e, s₁, bs, hcommit, hs₁, hbs, hfirst⟩
    · rw [hcommit]
      obtain ⟨bs, hidle, hfollows, hrest, hall⟩ := ih hs₁
      refine ⟨entry.transaction.bracket :: bs, hidle, .next _ hfollows, hfirst.trans hrest, ?_⟩
      intro hok
      rw [hall hok]
      rfl
    · rw [hcommit]
      refine ⟨bs, hs₁, hbs.append_right _, hfirst, ?_⟩
      intro hok
      cases hok

end TracedStore

end ActionFlow
