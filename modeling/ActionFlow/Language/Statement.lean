import ActionFlow.Language.Expr

/-!
# Statements of the action language
-/

namespace ActionFlow

/-- Where a signal goes. -/
inductive SignalTarget where
  /-- To each instance on a flow. -/
  | instances (target : Expr)
  /-- To the assigner of an association. -/
  | assigner (rnum : String)
  /-- To the lifecycle of a class, as a creation event. -/
  | initial (className : String)
  /-- To an external entity. -/
  | external (entity : String)
  /-- From the executing instance to itself. -/
  | completion
deriving Inhabited

/-- The sending of an event. -/
structure Signal where
  /-- The event sent. -/
  event : String
  /-- The values of its parameters. -/
  arguments : List Argument
  /-- Who receives it. -/
  target : SignalTarget
  /-- How long it is held back. -/
  delay : Option Expr
deriving Inhabited

/-- The creation of an instance. -/
structure Creation where
  /-- The class of the new instance. -/
  className : String
  /-- The label it gets. -/
  label : Option String
  /-- The values of its attributes. -/
  attributes : List Argument
  /-- The relationships to link it on, each with the instance to link it to. -/
  references : List (String × Expr)
deriving Inhabited

mutual

/-- A statement of an activity body. -/
inductive Statement where
  | assign (label : String) (value : Expr)
  /-- A call whose result, if any, is not used. -/
  | call (call : Call)
  | signal (signal : Signal)
  | cancelSignal (event : String) (target : Expr)
  | create (creation : Creation)
  | delete (target : Expr)
  | write (target : Expr) (attr : String) (value : Expr)
  | switch (scalar : Expr) (cases : List Case)
  /-- Runs the body once per instance of the source, which is labelled in turn. -/
  | iterate (source : Expr) (label : String) (body : List Statement)

/-- One case of a switch. -/
structure Case where
  /-- The values that select the case. -/
  values : List Literal
  /-- What runs in the case. -/
  body : List Statement

end

instance : Inhabited Statement := ⟨.delete default⟩

instance : Inhabited Case := ⟨[], []⟩

/-- A short text that locates a statement in a message. -/
def Statement.headline : Statement → String
  | .assign label value => label ++ " = " ++ value.render
  | .call c => c.render
  | .signal s => s.event ++ " -> signal"
  | .cancelSignal event target => "cancel " ++ event ++ " -> " ++ target.render
  | .create c =>
    match c.label with
    | some label => label ++ " = *" ++ c.className
    | none => "*" ++ c.className
  | .delete target => "!*" ++ target.render
  | .write target attr value => target.render ++ "." ++ attr ++ " = " ++ value.render
  | .switch scalar _ => scalar.render ++ " ?"
  | .iterate source label _ => source.render ++ " <" ++ label ++ ">"

end ActionFlow
