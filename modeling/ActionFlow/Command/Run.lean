import ActionFlow.Command.Dialogue
import ActionFlow.Compiler
import ActionFlow.Json.Writer
import ActionFlow.Package

/-!
# Compiling a package

A run loads a package, compiles the activities that match the filter, prints their schedules,
writes them to a file if asked to, and ends with a summary. What the run needs from its
surroundings is a value, so it runs on files as well as on a model of them.
-/

namespace ActionFlow

/-- What a run needs from its surroundings. -/
structure Console (m : Type → Type) where
  print : String → m Unit
  /-- The contents of a file, or what the system says instead. -/
  load : String → m (Except String String)
  /-- Writes a file, unless the system objects. -/
  save : String → String → m (Except String Unit)
  /-- Nanoseconds of a clock that never goes back. -/
  clock : m Nat

/-! ## Texts -/

/-- Whether one text occurs in another. -/
def occursIn (part : List Char) : List Char → Bool
  | [] => part.isEmpty
  | c :: rest => part.isPrefixOf (c :: rest) || occursIn part rest

/-- The digits of a decimal fraction, without zeros at the end. -/
def fractionText (digits fraction : Nat) : String :=
  let text := Nat.toDigits 10 fraction
  let padded := List.replicate (digits - text.length) '0' ++ text
  match (padded.reverse.dropWhile (· = '0')).reverse with
  | [] => ""
  | cs => "." ++ String.ofList cs

/-- A time in the largest unit that it fills. -/
def durationText (nanoseconds : Nat) : String :=
  let inUnit (digits size : Nat) (unit : String) : String :=
    toString (nanoseconds / size) ++ fractionText digits (nanoseconds % size) ++ unit
  if 1000000000 ≤ nanoseconds then inUnit 9 1000000000 "s"
  else if 1000000 ≤ nanoseconds then inUnit 6 1000000 "ms"
  else if 1000 ≤ nanoseconds then inUnit 3 1000 "µs"
  else toString nanoseconds ++ "ns"

/-- The activities that a filter leaves. -/
def Package.matching (p : Package) (filter : Option String) : List ActivityDefinition :=
  match filter with
  | none => p.activities
  | some text => p.activities.filter fun a => occursIn text.toList a.kind.render.toList

/-- An activity with its schedule. -/
def CompiledActivity.report (c : CompiledActivity) : String :=
  "\n" ++ c.activity.path ++ " (" ++ c.activity.anum ++ ")\n" ++ c.schedule.render c.graph

/-- A line of a summary, its value behind a column of titles. -/
def summaryLine (title value : String) : String :=
  title ++ String.ofList (List.replicate (22 - title.length) ' ') ++ value ++ "\n"

/-- What the store and the schedules hold in the end. -/
def populationSummary (store : Store) (compiled : List CompiledActivity) : String :=
  let rows (relation : String) : String := toString (store.count relation)
  "\n--- Population Summary ---\n"
    ++ summaryLine "Activities:" (rows "Activity")
    ++ summaryLine "Actions:" (rows "Action")
    ++ summaryLine "Flows:" (rows "Flow")
    ++ summaryLine "Flow Dependencies:" (rows "Flow Dependency")
    ++ summaryLine "Waves:" (toString (compiled.flatMap (·.schedule.waves)).length)

/-- The times of a run. -/
structure Timing where
  loading : Nat
  compilation : Nat
  total : Nat

/-- How long a run took, and which precedence it used. -/
def performanceSummary (t : Timing) (precedence : Precedence) : String :=
  "\n--- Performance Summary ---\n"
    ++ summaryLine "Package Loading:" (durationText t.loading)
    ++ summaryLine "Compilation:" (durationText t.compilation)
    ++ "-----------------------------\n"
    ++ summaryLine "Total Execution:" (durationText t.total)
    ++ summaryLine "Cardinality:" precedence.name
    ++ "\n"

/-! ## Running -/

section Run

variable {m : Type → Type} [Monad m] (console : Console m)

/-- Reads the package, or says why that fails. -/
def Request.load (r : Request) : ExceptT String m Package := do
  let failure (e : ModelError) : String := s!"Failed to load package '{r.package}': " ++ e.message
  match ← ExceptT.lift (console.load r.package) with
  | .error detail => throw (failure (.unreadable (r.package ++ ": " ++ detail)))
  | .ok text =>
    match Package.parse? text with
    | none => throw (failure (.malformed "not a domain package"))
    | some p => return p

/-- Writes the compiled activities. -/
def exportTo (path : String) (compiled : List CompiledActivity) : ExceptT String m Unit := do
  let text := (Json.ofList CompiledActivity.toJson compiled).pretty
  match ← ExceptT.lift (console.save path text) with
  | .error detail => throw (s!"Failed to write '{path}': " ++ detail)
  | .ok () => console.print ("\nWrote compiled activities to " ++ path ++ "\n")

/-- Runs a request. A failure is the message to end with. -/
def Request.run (r : Request) : ExceptT String m Unit := do
  let start ← console.clock
  let p ← r.load console
  let loaded ← console.clock
  let activities := p.matching r.filter
  if activities.isEmpty then
    throw "No activity matches the given filter."
  console.print
    s!"\nCompiling {activities.length} activities of domain '{p.domain.name}'...\n"
  let begun ← console.clock
  let fresh := Compiler.new p.domain r.precedence (.ofStore .empty fun _ _ => false)
  match fresh.compileAll activities with
  | (.error e, _) => throw ("Compilation failed: " ++ e.message)
  | (.ok compiled, c) =>
    let finished ← console.clock
    compiled.forM fun a => console.print a.report
    match r.output with
    | some path => exportTo console path compiled
    | none => pure ()
    let ended ← console.clock
    console.print (populationSummary c.store.store compiled)
    console.print
      (performanceSummary ⟨loaded - start, finished - begun, ended - start⟩ r.precedence)

end Run

/-! ## Starting -/

/-- What a command line leads to. -/
inductive Start where
  /-- Ask for the request. -/
  | ask
  | run (request : Request)
  /-- End with a message. -/
  | fail (message : String)
deriving DecidableEq, Inhabited

/-- What options lead to. -/
def Options.start (o : Options) : Start :=
  if o.interactive then .ask
  else
    match o.package with
    | none => .fail "Package path is required in non-interactive mode."
    | some path => .run ⟨path, o.precedence.getD .explicit, o.filter, o.output⟩

/-- The text of a message that ends the program. -/
def failureText (message : String) : String := "\nError: " ++ message ++ "\n"

end ActionFlow
