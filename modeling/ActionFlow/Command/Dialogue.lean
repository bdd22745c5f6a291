import ActionFlow.Command.Options

/-!
# Asking for what to compile

In the interactive mode the package, the filter and the precedence are asked for in turn. An answer
counts without the white space around it, and an empty one stands for the default. The precedence
is asked for until the answer is one of those offered.
-/

namespace ActionFlow

/-- Whether a character has the Unicode property `White_Space`. -/
def isWhiteSpace (c : Char) : Bool :=
  let n := c.toNat
  (9 ≤ n && n ≤ 13) || n = 0x20 || n = 0x85 || n = 0xA0 || n = 0x1680
    || (0x2000 ≤ n && n ≤ 0x200A) || n = 0x2028 || n = 0x2029 || n = 0x202F || n = 0x205F
    || n = 0x3000

/-- A text without the white space at its ends. -/
def trimmed (text : String) : String :=
  let front := text.toList.dropWhile isWhiteSpace
  String.ofList (front.reverse.dropWhile isWhiteSpace).reverse

/-- What to compile. -/
structure Request where
  /-- The path of the package. -/
  package : String
  precedence : Precedence
  filter : Option String
  output : Option String
deriving DecidableEq, Inhabited

/-- The question that is being asked, with the answers before it. -/
inductive Question where
  | package
  | filter (package : String)
  | precedence (package filter : String)
deriving DecidableEq, Inhabited

/-- What an answer leads to. -/
inductive Reply where
  | ask (question : Question)
  | done (request : Request)
deriving DecidableEq, Inhabited

namespace Question

/-- The greeting before the first question. -/
def greeting : String := "--- xUML Activity Interactive Mode ---\n"

/-- The answer an empty line stands for. -/
def standard : Question → String
  | .package => "data/domain.json"
  | .filter _ => ""
  | .precedence _ _ => "1"

/-- The text that asks a question. -/
def text : Question → String
  | .package => "> Enter domain package path [default: data/domain.json]: "
  | .filter _ => "> Only compile activities matching (optional): "
  | .precedence _ _ =>
    "\nWhen `(*)` selects on a full identifier:\n"
      ++ "  1: Keep the written cardinality\n"
      ++ "  2: Select a single instance\n"
      ++ "> Enter choice [default: 1]: "

/-- The answer that a line gives. -/
def answer (q : Question) (line : String) : String :=
  let given := trimmed line
  if given.isEmpty then q.standard else given

/-- The request that the answers make up. -/
def request (path given : String) (chosen : Precedence) : Request :=
  ⟨path, chosen, if given.isEmpty then none else some given, none⟩

/-- What is printed in reply to an answer, and what follows. -/
def reply : Question → String → String × Reply
  | .package, path => ("", .ask (.filter path))
  | .filter path, given => ("", .ask (.precedence path given))
  | .precedence path given, "1" => ("", .done (request path given .explicit))
  | .precedence path given, "2" => ("", .done (request path given .inferred))
  | .precedence path given, _ =>
    ("Invalid choice. Please enter 1 or 2.\n", .ask (.precedence path given))

/-- What is printed and requested if every answer that is left is the default. -/
def standardRest : Question → String × Request
  | .package =>
    let path := package.standard
    let given := (filter path).standard
    (package.text ++ (filter path).text ++ (precedence path given).text,
      request path given .explicit)
  | .filter path =>
    let given := (filter path).standard
    ((filter path).text ++ (precedence path given).text, request path given .explicit)
  | .precedence path given => ((precedence path given).text, request path given .explicit)

/-- Everything that is printed while lines are read as answers, and what they request. Past the
last line every answer is the default. -/
def converse (q : Question) : List String → String × Request
  | [] => q.standardRest
  | line :: rest =>
    match q.reply (q.answer line) with
    | (printed, .done r) => (q.text ++ printed, r)
    | (printed, .ask next) =>
      let (more, r) := next.converse rest
      (q.text ++ printed ++ more, r)

end Question

end ActionFlow
