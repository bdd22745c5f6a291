import ActionFlow.Lowering.Activity

/-!
# The compiler

The compiler lowers activities, writes what they are made of to a store, and schedules them. Every
activity it tries gets the next number. If one fails, all rows under its number are removed, so
the store holds whole activities only. Numbers have 32 bits: once all have been given out, they are
given out again from the beginning.
-/

namespace ActionFlow

/-- A compiler with its store. -/
structure Compiler where
  setting : Setting
  store : TracedStore
  /-- The number that was given out last. -/
  number : UInt32
deriving Inhabited

/-- What compiling gives back, and the compiler after it. -/
abbrev CompileResult (α : Type) := Except ActivityError α × Compiler

/-- Executes the transactions of a journal in turn until one fails. -/
def TracedStore.replay (s : TracedStore) (path : String) :
    List JournalEntry → Except ActivityError Unit × TracedStore
  | [] => (.ok (), s)
  | entry :: rest =>
    match s.commit entry.transaction with
    | (.ok (), s) => s.replay path rest
    | (.error e, s) => (.error ⟨path, entry.fragment, .store e⟩, s)

/-- Removes the rows of an activity. -/
def TracedStore.forget (s : TracedStore) (anum : String) : TracedStore :=
  s.purgeAll "Anum" (.text anum)

namespace Compiler

/-- A compiler for a domain over a store. The built-in types are added to the domain. -/
def new (d : Domain) (precedence : Precedence) (store : TracedStore) : Compiler :=
  ⟨⟨d.withBuiltins, precedence⟩, store, 0⟩

/-- The number of an activity as it is written. -/
def anumOf (n : UInt32) : String := s!"A{n}"

/-- What the next activity is numbered. -/
def nextAnum (c : Compiler) : String := anumOf (c.number + 1)

/-- The domain that is compiled against. -/
def domain (c : Compiler) : Domain := c.setting.domain

/-- The path of an activity in messages. -/
def pathOf (c : Compiler) (a : ActivityDefinition) : String :=
  c.domain.name ++ ":" ++ a.kind.render

/-- Schedules a lowered activity and writes the schedule. -/
def finish (store : TracedStore) (d : Draft) :
    Except ActivityError CompiledActivity × TracedStore :=
  match d.graph.schedule with
  | .error e => (.error ⟨d.activity.path, none, .scheduling e⟩, store)
  | .ok schedule =>
    match store.commit (scheduleTransaction d.activity.anum d.graph schedule) with
    | (.ok (), store) => (.ok ⟨d.activity, d.graph, schedule⟩, store)
    | (.error e, store) => (.error ⟨d.activity.path, none, .store e⟩, store)

/-- Lowers an activity, writes it and schedules it. A transaction that fails comes before an error
of the lowering, which arose later. -/
def attempt (c : Compiler) (anum : String) (a : ActivityDefinition) :
    Except ActivityError CompiledActivity × TracedStore :=
  let path := c.pathOf a
  let (outcome, draft) := c.setting.lower anum path a
  match c.store.replay path draft.journal with
  | (.error e, store) => (.error e, store)
  | (.ok (), store) =>
    match outcome with
    | .error e => (.error ⟨path, draft.fragment, e⟩, store)
    | .ok () => finish store draft

/-- Compiles one activity. A domain that is not valid compiles nothing. -/
def compile (c : Compiler) (a : ActivityDefinition) : CompileResult CompiledActivity :=
  match c.domain.validate with
  | .error e => (.error ⟨c.pathOf a, none, .model e⟩, c)
  | .ok () =>
    match c.attempt c.nextAnum a with
    | (.ok compiled, store) => (.ok compiled, { c with store := store, number := c.number + 1 })
    | (.error e, store) =>
      (.error e, { c with store := store.forget c.nextAnum, number := c.number + 1 })

/-- Removes the rows of compiled activities. -/
def forgetAll (c : Compiler) (compiled : List CompiledActivity) : Compiler :=
  { c with store := compiled.foldl (fun s a => s.forget a.activity.anum) c.store }

/-- Compiles activities in turn; `done` are those compiled before. -/
def compileFrom (c : Compiler) (done : List CompiledActivity) :
    List ActivityDefinition → CompileResult (List CompiledActivity)
  | [] => (.ok done, c)
  | a :: rest =>
    match c.compile a with
    | (.ok compiled, c) => c.compileFrom (done ++ [compiled]) rest
    | (.error e, c) => (.error e, c.forgetAll done)

/-- Compiles all activities or none: at the first failure those compiled before are removed. -/
def compileAll (c : Compiler) (activities : List ActivityDefinition) :
    CompileResult (List CompiledActivity) :=
  c.compileFrom [] activities

end Compiler

end ActionFlow
