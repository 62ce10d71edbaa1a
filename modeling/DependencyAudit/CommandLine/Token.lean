import DependencyAudit.Text.DecimalDigit
import DependencyAudit.Text.Quoted

/-!
# Words of a command line

Each word of a command line is an argument or a switch, possibly with a value of its own. Long
switches may be shortened as long as one switch only is meant. After a word of two dashes all words
are arguments.
-/

namespace DependencyAudit.CommandLine

inductive Switch where
  | help
  | logLevel
  | root
  | config
  | list
  | lock
  | warnOnly
  deriving DecidableEq, Repr

namespace Switch

def spellings : Switch → List String
  | help => ["-h", "--help"]
  | logLevel => ["--log-level"]
  | root => ["--root"]
  | config => ["--config"]
  | list => ["--list"]
  | lock => ["--lock"]
  | warnOnly => ["--warn-only"]

def title (s : Switch) : String := String.intercalate "/" s.spellings

def takesValue : Switch → Bool
  | help => false
  | warnOnly => false
  | _ => true

end Switch

inductive UsageError where
  | ambiguous (word : String) (meanings : List String)
  | noValue (s : Switch)
  | needlessValue (s : Switch) (value : String)
  | missing (operand : String)
  | unknownCommand (word : String) (known : List String)
  | unrecognized (words : List String)
  deriving DecidableEq, Repr

def UsageError.message : UsageError → String
  | ambiguous word meanings =>
    s!"ambiguous option: {word} could match " ++ String.intercalate ", " meanings
  | noValue s => s!"argument {s.title}: expected one argument"
  | needlessValue s value =>
    s!"argument {s.title}: ignored explicit argument {Text.quotedString value}"
  | missing operand => s!"the following arguments are required: {operand}"
  | unknownCommand word known =>
    s!"argument command: invalid choice: {Text.quotedString word} (choose from " ++
      String.intercalate ", " (known.map Text.quotedString) ++ ")"
  | unrecognized words => "unrecognized arguments: " ++ String.intercalate " " words

/-- What the word of a switch holds beside its spelling: a value assigned to a long spelling, or
characters attached to a short one. -/
inductive Given where
  | assigned (value : String)
  | attached (value : String)
  deriving DecidableEq, Repr

def Given.value : Given → String
  | assigned value => value
  | attached value => value

inductive Token where
  | argument (word : String)
  | dashes
  | switch (word : String) (s : Switch) (given : Option Given)
  | unknownSwitch (word : String)
  deriving DecidableEq, Repr

namespace Token

def text : Token → String
  | argument word => word
  | dashes => "--"
  | switch word _ _ => word
  | unknownSwitch word => word

/-- Every spelling of the switches with its switch, in order. -/
def spelled (switches : List Switch) : List (String × Switch) :=
  switches.flatMap fun s => s.spellings.map fun spelling => (spelling, s)

def isLong (word : List Char) : Bool := ['-', '-'].isPrefixOf word

/-- A word cut at its first equals sign. -/
def cutAssignment (word : List Char) : String × Option Given :=
  (String.ofList (word.takeWhile (· != '=')),
    match word.dropWhile (· != '=') with
    | _ :: value =>
      let value := String.ofList value
      some (if isLong word then .assigned value else .attached value)
    | [] => none)

/-- The switches that a word may stand for if it is no spelling itself. -/
def meanings (switches : List Switch) (word : List Char) :
    List (String × Switch × Option Given) :=
  if isLong word then
    let (start, given) := cutAssignment word
    ((spelled switches).filter fun (spelling, _) => start.toList.isPrefixOf spelling.toList).map
      fun (spelling, s) => (spelling, s, given)
  else
    (spelled switches).filterMap fun (spelling, s) =>
      if spelling.toList = word.take 2 then
        some (spelling, s, some (.attached (String.ofList (word.drop 2))))
      else if word.isPrefixOf spelling.toList then some (spelling, s, none)
      else none

/-- A minus sign and a decimal number, a final line feed aside. -/
def isNegativeNumber (word : List Char) : Bool :=
  let digits := (if word.getLast? = some '\n' then word.dropLast else word).drop 1
  let fraction := digits.dropWhile Text.isDigit
  Text.isNumeral digits || (fraction.head? = some '.' && Text.isNumeral (fraction.drop 1))

def ofMeanings (word : String) :
    List (String × Switch × Option Given) → Except UsageError Token
  | [(_, s, given)] => .ok (switch word s given)
  | [] =>
    if isNegativeNumber word.toList || word.toList.contains ' ' then .ok (argument word)
    else .ok (unknownSwitch word)
  | several => .error (.ambiguous word (several.map (·.1)))

def ofWord (switches : List Switch) (word : String) : Except UsageError Token :=
  let (start, given) := cutAssignment word.toList
  if word.toList.head? ≠ some '-' || word = "-" then .ok (argument word)
  else match (spelled switches).lookup word with
    | some s => .ok (switch word s none)
    | none =>
      match given, (spelled switches).lookup start with
      | some given, some s => .ok (switch word s (some given))
      | _, _ => ofMeanings word (meanings switches word.toList)

def ofWords (switches : List Switch) : List String → Except UsageError (List Token)
  | [] => .ok []
  | word :: words =>
    if word = "--" then .ok (dashes :: words.map argument)
    else do return (← ofWord switches word) :: (← ofWords switches words)

end Token
end DependencyAudit.CommandLine
