import ActionFlow.Store.Value

/-!
# The store

The store holds rows in named relations. Rows are queued in a transaction, of which at most one is
open, and become visible together when it is executed. Reading never needs a transaction and sees
executed rows only. An operation that is refused changes nothing, since it returns no store.
-/

namespace ActionFlow

/-- Why a store refuses an operation. -/
inductive StoreError where
  | transactionAlreadyOpen (pending requested : String)
  | noOpenTransaction (requested : String)
  | transactionMismatch (pending requested : String)
deriving DecidableEq, Inhabited

/-- The wording of a refusal. -/
def StoreError.message : StoreError → String
  | .transactionAlreadyOpen pending requested =>
    s!"Cannot open transaction '{requested}' while '{pending}' is still pending"
  | .noOpenTransaction requested => s!"No transaction is open for '{requested}'"
  | .transactionMismatch pending requested =>
    s!"Transaction '{requested}' does not match the open transaction '{pending}'"

/-- A transaction that has been opened and not yet executed. -/
structure Pending where
  name : String
  /-- The queued rows with their relations, in the order queued. -/
  inserts : List (String × Tuple)
deriving DecidableEq, Inhabited

/-- A relational store. -/
structure Store where
  /-- The executed rows of each relation, in order of insertion. -/
  relations : SortedMap String (List Tuple)
  pending : Option Pending
deriving DecidableEq, Inhabited

namespace Store

/-- The store without rows. -/
def empty : Store := ⟨.empty, none⟩

/-! ## Reading -/

/-- The executed rows of a relation. -/
def tuples (s : Store) (relation : String) : List Tuple := (s.relations.get? relation).getD []

/-- How many rows a relation has. -/
def count (s : Store) (relation : String) : Nat := (s.tuples relation).length

/-- The name of the open transaction. -/
def pendingName (s : Store) : Option String := s.pending.map (·.name)

/-- The relations that hold rows, in ascending order. -/
def relationNames (s : Store) : List String :=
  (s.relations.entries.filter fun e => !e.2.isEmpty).map Prod.fst

/-- The rows of a relation that satisfy a predicate. -/
def restrict (s : Store) (relation : String) (p : Tuple → Bool) : List Tuple :=
  (s.tuples relation).filter p

/-- The different rows that remain when a relation is cut down to some attributes. -/
def project (s : Store) (relation : String) (attributes : List String) : List Tuple :=
  ((s.tuples relation).map (·.restricted attributes)).eraseDups

/-- Rows by their values of some attributes. -/
abbrev Index := SortedMap (List Value) (List Tuple)

/-- Adds a row behind those that agree with it. -/
def Index.push (attributes : List String) (index : Index) (t : Tuple) : Index :=
  index.insert (t.key attributes) ((index.get? (t.key attributes)).getD [] ++ [t])

/-- The rows of a relation by their values of some attributes. -/
def index (s : Store) (relation : String) (attributes : List String) : Index :=
  (s.tuples relation).foldl (Index.push attributes) SortedMap.empty

/-- The rows of two relations that agree on some attributes, each pair as one row. -/
def join (s : Store) (a b : String) (attributes : List String) : List Tuple :=
  let index := s.index b attributes
  (s.tuples a).flatMap fun t =>
    ((index.get? (t.key attributes)).getD []).map fun t' => t.insertAll t'.entries

/-- The rows of a relation that agree with some row of another on some attributes. -/
def semijoin (s : Store) (a b : String) (attributes : List String) : List Tuple :=
  let keys := SortedSet.ofList ((s.tuples b).map (·.key attributes))
  (s.tuples a).filter fun t => keys.contains (t.key attributes)

/-! ## Transactions -/

/-- The open transaction, if it has the requested name. -/
def requirePending (s : Store) (name : String) : Except StoreError Pending :=
  match s.pending with
  | none => .error (.noOpenTransaction name)
  | some p => if p.name = name then .ok p else .error (.transactionMismatch p.name name)

/-- Opens a transaction. -/
def openTransaction (s : Store) (name : String) : Except StoreError Store :=
  match s.pending with
  | some p => .error (.transactionAlreadyOpen p.name name)
  | none => .ok { s with pending := some ⟨name, []⟩ }

/-- Queues rows for a relation in the open transaction. -/
def insert (s : Store) (name relation : String) (tuples : List Tuple) :
    Except StoreError Store := do
  let p ← s.requirePending name
  return { s with pending := some ⟨p.name, p.inserts ++ tuples.map (relation, ·)⟩ }

/-- Appends a row to a relation. -/
def append (relations : SortedMap String (List Tuple)) (row : String × Tuple) :
    SortedMap String (List Tuple) :=
  relations.insert row.1 ((relations.get? row.1).getD [] ++ [row.2])

/-- Makes the queued rows visible and closes the transaction. -/
def execute (s : Store) (name : String) : Except StoreError Store := do
  let p ← s.requirePending name
  return ⟨p.inserts.foldl append s.relations, none⟩

/-- Closes the transaction and forgets its rows. -/
def rollback (s : Store) (name : String) : Except StoreError Store := do
  let _ ← s.requirePending name
  return { s with pending := none }

/-- Removes the executed rows of a relation that satisfy a predicate. -/
def purge (s : Store) (relation : String) (p : Tuple → Bool) : Store :=
  match s.relations.get? relation with
  | none => s
  | some tuples => { s with relations := s.relations.insert relation (tuples.filter (!p ·)) }

end Store

end ActionFlow
