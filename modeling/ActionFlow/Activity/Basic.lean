import ActionFlow.Graph.Schedule
import ActionFlow.Language.Statement

/-!
# Activities

An activity definition says what part of the model a body implements. Compiling it gives the
activity with its graph and its schedule.
-/

namespace ActionFlow

/-- What an activity implements. -/
inductive ActivityKind where
  | method (className name : String)
  | state (className name : String)
  | operation (entity name : String)
deriving DecidableEq, Inhabited

namespace ActivityKind

/-- The class of the executing instance, if there is one. -/
def instanceClass? : ActivityKind → Option String
  | .method className _ | .state className _ => some className
  | .operation _ _ => none

/-- What an activity implements, as it is written. -/
def render : ActivityKind → String
  | .method className name => className ++ "." ++ name
  | .state className name => className ++ ":" ++ name
  | .operation entity name => entity ++ "::" ++ name

end ActivityKind

/-- A body with what it implements. Only a state declares its own parameters; those of a method
or an operation come from its signature. -/
structure ActivityDefinition where
  kind : ActivityKind
  parameters : List Parameter
  /-- The text the body was read from. -/
  source : String
  body : List Statement
deriving Inhabited

/-- An activity under its number. -/
structure Activity where
  /-- The number that every row written for the activity carries. -/
  anum : String
  domain : String
  kind : ActivityKind
  /-- The place that messages name. -/
  path : String
  source : String
  executingInstance : Option FlowId
  parameters : List (String × FlowId)
deriving DecidableEq, Inhabited

/-- An activity with its graph and its schedule. -/
structure CompiledActivity where
  activity : Activity
  graph : Graph
  schedule : Schedule
deriving DecidableEq, Inhabited

end ActionFlow
