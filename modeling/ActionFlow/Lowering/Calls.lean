import ActionFlow.Lowering.Basic

/-!
# Lowering calls

A call supplies values by name. The names have to be exactly the declared ones, and each value has
to fit the declared class or scalar type; the action takes the values in order of declaration.
-/

namespace ActionFlow.Lower

variable (s : Setting)

/-- The flows supplied under names. -/
abbrev Supplied := List (String × FlowId)

/-- Requires the names supplied to be the declared ones, each once. -/
def expectNames (target : String) (declared : List Parameter) (names : List String) :
    Lower Unit :=
  let expected := (SortedSet.ofList (declared.map (·.name))).keys
  let given := (SortedSet.ofList names).keys
  if expected = given ∧ given.length = names.length then return ()
  else throw (.signature (.parameterSet target expected names))

/-- The class or scalar type of a declared parameter. -/
def parameterType (target : String) (declared : List Parameter) (name : String) :
    Lower String := do
  let p ← require (.signature (.undefined target name)) (declared.find? (·.name = name))
  return p.typeName

/-- Requires a supplied value to fit its declared type. -/
def expectFits (target name typeName : String) (id : FlowId) : Lower Unit := do
  let f ← flow id
  if !f.fits typeName then
    throw (.signature (.parameterType target name typeName f.describe))

/-- Supplied values in order of declaration. -/
def inDeclaredOrder (declared : List Parameter) (values : Supplied) : Supplied :=
  (declared.map (·.name)).eraseDups.filterMap fun name => values.find? (·.1 = name)

/-- Checks the names, lowers the values, and puts them in order of declaration. -/
def supply (target : String) (declared : List Parameter) (names : List String)
    (values : Lower Supplied) : Lower Supplied := do
  expectNames target declared names
  return inDeclaredOrder declared (← values)

/-- Allocates the flow of a result, if the signature has one. -/
def returnFlow (sig : Signature) : Lower (Option FlowId) := do
  match sig.returns with
  | none => return none
  | some typeName =>
    let (content, type) ← require (.flow (.unknownScalarType typeName))
      (declaredType? s.domain typeName)
    return some (← newFlow content type)

/-- The signature of a method of a class. -/
def methodSignature (className method : String) : Lower Signature :=
  require (.signature (.undefined className method))
    ((s.domain.findClass className).bind fun c => findSignature c.methods method)

/-- The signature of an operation of an external entity. -/
def entitySignature (entity operation : String) : Lower Signature :=
  require (.signature (.undefined entity operation))
    ((s.domain.findEntity entity).bind fun e => findSignature e.operations operation)

/-- The signature of an operation of a scalar type. -/
def typeSignature (typeName operation : String) : Lower Signature :=
  require (.signature (.undefined typeName operation))
    ((s.domain.findType typeName).bind fun t => findSignature t.operations operation)

/-- What a call leaves behind. -/
structure CallResult where
  /-- What was called, for messages. -/
  target : String
  output : Option FlowId

end ActionFlow.Lower
