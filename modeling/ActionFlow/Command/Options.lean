import ActionFlow.Restriction

/-!
# The command line

A word of the command line is an option, the value of the option before it, or the path of the
package. A long option takes its value after an equals sign or as the next word; short options may
be written together, and the last of them may be followed by its value. After two dashes every word
is a path.
-/

namespace ActionFlow

/-- What the command line asks for. -/
structure Options where
  package : Option String
  precedence : Option Precedence
  /-- The text that the activities to be compiled have in common. -/
  filter : Option String
  /-- Where the compiled activities are written to. -/
  output : Option String
  /-- Whether to ask for everything instead. -/
  interactive : Bool
deriving DecidableEq, Inhabited

/-- The options that take a value. -/
inductive ValueOption where
  | precedence
  | filter
  | output
deriving DecidableEq, Inhabited

namespace ValueOption

/-- The option with a long name. -/
def ofLong? : String → Option ValueOption
  | "precedence" => some .precedence
  | "activity" => some .filter
  | "output" => some .output
  | _ => none

/-- The option with a letter. -/
def ofLetter? : Char → Option ValueOption
  | 'p' => some .precedence
  | 'a' => some .filter
  | 'o' => some .output
  | _ => none

end ValueOption

/-- The precedence with a name on the command line. -/
def Precedence.ofWord? : String → Option Precedence
  | "explicit" => some .explicit
  | "inferred" => some .inferred
  | _ => none

namespace Options

/-- The command line without words. -/
def blank : Options := ⟨none, none, none, none, false⟩

/-- Gives an option its value, which it must not have yet. -/
def setValue (o : Options) (value : String) : ValueOption → Option Options
  | .precedence =>
    if o.precedence.isSome then none
    else (Precedence.ofWord? value).map fun p => { o with precedence := some p }
  | .filter => if o.filter.isSome then none else some { o with filter := some value }
  | .output => if o.output.isSome then none else some { o with output := some value }

/-- Turns the interactive mode on, which must not be on yet. -/
def setInteractive (o : Options) : Option Options :=
  if o.interactive then none else some { o with interactive := true }

/-- Takes the path of the package, of which there is one only. -/
def setPackage (o : Options) (path : String) : Option Options :=
  if o.package.isSome then none else some { o with package := some path }

/-- Reads letters written together, which may end with an option that still needs its value. -/
def readLetters (o : Options) : List Char → Option (Options × Option ValueOption)
  | [] => some (o, none)
  | 'i' :: rest => do (← o.setInteractive).readLetters rest
  | c :: rest => do
    let option ← ValueOption.ofLetter? c
    match rest with
    | [] => return (o, some option)
    | '=' :: value => return (← o.setValue (String.ofList value) option, none)
    | value => return (← o.setValue (String.ofList value) option, none)

/-- Reads a long option, which may still need its value. -/
def readLong (o : Options) (cs : List Char) : Option (Options × Option ValueOption) :=
  let name := String.ofList (cs.takeWhile (· ≠ '='))
  match cs.dropWhile (· ≠ '=') with
  | '=' :: value => do
    return (← o.setValue (String.ofList value) (← ValueOption.ofLong? name), none)
  | _ =>
    if name = "human" then o.setInteractive.map (·, none)
    else (ValueOption.ofLong? name).map fun option => (o, some option)

/-- Whether a word can be the value of the option before it or a path. -/
def isPlain (word : String) : Bool :=
  match word.toList with
  | '-' :: _ :: _ => false
  | _ => true

/-- Reads the words of a command line; `pending` is the option that waits for its value. -/
def readWords (o : Options) (pending : Option ValueOption) : List String → Option Options
  | [] => if pending.isSome then none else some o
  | word :: rest =>
    match pending with
    | some option =>
      if isPlain word then do (← o.setValue word option).readWords none rest else none
    | none =>
      match word.toList with
      | ['-', '-'] => rest.foldlM setPackage o
      | '-' :: '-' :: cs => do
        let (o, pending) ← o.readLong cs
        o.readWords pending rest
      | '-' :: c :: cs => do
        let (o, pending) ← o.readLetters (c :: cs)
        o.readWords pending rest
      | _ => do (← o.setPackage word).readWords none rest

/-- Reads a command line. -/
def parse? (words : List String) : Option Options := blank.readWords none words

end Options

end ActionFlow
