import ActionFlow.Store.Basic

/-!
# A store with a trace

Every call that concerns a transaction is written down before it reaches the store. A plan says
which calls are refused on the way: the store does not see them, and they fail as if no
transaction were open.
-/

namespace ActionFlow

/-- A call that concerns a transaction. -/
inductive StoreCall where
  | openTransaction (name : String)
  | insert (name relation : String) (tuples : List Tuple)
  | execute (name : String)
  | rollback (name : String)
deriving DecidableEq, Inhabited

/-- The kinds of calls, which are counted apart. -/
inductive CallKind where
  | openTransaction
  | insert
  | execute
  | rollback
deriving DecidableEq, Inhabited

namespace StoreCall

/-- The transaction a call names. -/
def name : StoreCall → String
  | .openTransaction name | .insert name _ _ | .execute name | .rollback name => name

/-- The kind of a call. -/
def kind : StoreCall → CallKind
  | .openTransaction _ => .openTransaction
  | .insert _ _ _ => .insert
  | .execute _ => .execute
  | .rollback _ => .rollback

/-- A call in words. -/
def render : StoreCall → String
  | .openTransaction name => "open " ++ name
  | .insert name relation tuples => s!"insert {name} {relation} {tuples.length}"
  | .execute name => "execute " ++ name
  | .rollback name => "rollback " ++ name

/-- What a call does to a store. -/
def apply (c : StoreCall) (s : Store) : Except StoreError Store :=
  match c with
  | .openTransaction name => s.openTransaction name
  | .insert name relation tuples => s.insert name relation tuples
  | .execute name => s.execute name
  | .rollback name => s.rollback name

end StoreCall

/-- A call in a trace. -/
structure TracedCall where
  call : StoreCall
  /-- Whether it was kept from the store. -/
  refused : Bool
deriving DecidableEq, Inhabited

/-- A traced call in words. -/
def TracedCall.render (c : TracedCall) : String :=
  if c.refused then c.call.render ++ " !" else c.call.render

/-- A store with the calls made to it. -/
structure TracedStore where
  store : Store
  /-- All calls so far, the first one first. -/
  calls : List TracedCall
  /-- Which calls are refused, by kind and by number within the kind, from one. -/
  refuses : CallKind → Nat → Bool

instance : Inhabited TracedStore := ⟨.empty, [], fun _ _ => false⟩

/-- What a call gives back, and the store after it. -/
abbrev StoreResult := Except StoreError Unit × TracedStore

/-- Rows for several relations that become visible together. -/
structure Transaction where
  name : String
  /-- The rows of each relation; a relation without rows is passed over. -/
  inserts : List (String × List Tuple)
deriving DecidableEq, Inhabited

namespace TracedStore

/-- A store of which nothing has been asked yet. -/
def ofStore (s : Store) (refuses : CallKind → Nat → Bool) : TracedStore := ⟨s, [], refuses⟩

/-- How many calls of a kind have been made. -/
def callCount (s : TracedStore) (kind : CallKind) : Nat :=
  (s.calls.filter fun c => c.call.kind = kind).length

/-- Makes a call. -/
def perform (s : TracedStore) (c : StoreCall) : StoreResult :=
  if s.refuses c.kind (s.callCount c.kind + 1) then
    (.error (.noOpenTransaction c.name), { s with calls := s.calls ++ [⟨c, true⟩] })
  else
    let traced := { s with calls := s.calls ++ [⟨c, false⟩] }
    match c.apply s.store with
    | .ok store => (.ok (), { traced with store := store })
    | .error e => (.error e, traced)

/-- Makes calls in turn until one fails. -/
def performAll (s : TracedStore) : List StoreCall → StoreResult
  | [] => (.ok (), s)
  | c :: rest =>
    match s.perform c with
    | (.ok (), s) => s.performAll rest
    | (.error e, s) => (.error e, s)

/-- The calls that queue and execute a transaction once it is open. -/
def fillCalls (t : Transaction) : List StoreCall :=
  (t.inserts.filter fun i => !i.2.isEmpty).map (fun i => .insert t.name i.1 i.2)
    ++ [.execute t.name]

/-- Opens, fills and executes a transaction. If that fails after opening, this transaction and no
other is discarded, whatever the outcome of discarding it. -/
def commit (s : TracedStore) (t : Transaction) : StoreResult :=
  match s.perform (.openTransaction t.name) with
  | (.error e, s) => (.error e, s)
  | (.ok (), s) =>
    match s.performAll (fillCalls t) with
    | (.ok (), s) => (.ok (), s)
    | (.error e, s) =>
      if s.store.pendingName = some t.name then
        (.error e, (s.perform (.rollback t.name)).2)
      else
        (.error e, s)

/-- Removes every executed row in which an attribute has a value. -/
def purgeAll (s : TracedStore) (attr : String) (v : Value) : TracedStore :=
  { s with store := s.store.relationNames.foldl (fun store relation =>
      store.purge relation fun t => t.hasValue attr v) s.store }

end TracedStore

end ActionFlow
