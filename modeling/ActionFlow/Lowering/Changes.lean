import ActionFlow.Lowering.Expr

/-!
# Lowering changes to instances

Instances are created, deleted and written to. A referential attribute is never written directly:
it follows from the relationships an instance is linked on.
-/

namespace ActionFlow

/-- Whether an instance of a class can be linked on a relationship when it is created. -/
def Relationship.links (className : String) : Relationship → Bool
  | .association a => a.isParticipant className || a.isAssociationClass className
  | .generalization g => g.subclasses.contains className
  | .ordinal _ => false

namespace Lower

variable (s : Setting)

/-- The type of an attribute that can be written. -/
def writableType (className attr : String) : Lower String := do
  let a ← require (.flow (.unknownAttribute className attr))
    ((s.domain.findClass className).bind (·.findAttribute attr))
  if !a.references.isEmpty then
    throw (.flow (.referentialAttribute className attr))
  return a.typeName

/-- Lowers the instances that a new instance is linked to, in the order written. -/
def references (className target : String) : List (String × Expr) → Lower Supplied
  | [] => return []
  | (rnum, value) :: rest => do
    let r ← require (.path (.undefinedRelationship rnum)) (s.domain.findRelationship rnum)
    if !r.links className then
      throw (.flow (.notRelated className rnum))
    let chain ← expr s none value
    let _ ← expectSingleInstance chain.output (target ++ " reference " ++ rnum)
    return (rnum, chain.output) :: (← references className target rest)

/-- Creates an instance. -/
def create (c : Creation) : Lower Unit := do
  let _ ← require (.flow (.unknownClass c.className)) (s.domain.findClass c.className)
  let target := "create " ++ c.className
  let values ← arguments s target (writableType s c.className) c.attributes
  let links ← references s c.className target c.references
  let output ← produce .singleInstance (.object c.className) fun output =>
    .create c.className values links output
  match c.label with
  | some label => setLabel output label
  | none => return ()

/-- Deletes instances. -/
def delete (target : Expr) : Lower Unit := do
  let chain ← expr s none target
  let _ ← expectInstance chain.output "delete"
  emit (.delete chain.output)

/-- Writes an attribute of instances. -/
def write (target : Expr) (attr : String) (value : Expr) : Lower Unit := do
  let chain ← expr s none target
  let className ← expectInstance chain.output ("write ." ++ attr)
  let typeName ← writableType s className attr
  let written ← expr s (some typeName) value
  expectFits (className ++ "." ++ attr) attr typeName written.output
  emit (.write chain.output attr written.output)

end Lower

end ActionFlow
