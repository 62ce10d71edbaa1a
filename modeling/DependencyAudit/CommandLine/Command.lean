import DependencyAudit.CommandLine.Token
import DependencyAudit.Path

/-!
# Commands

A command line names one of three commands after its general switches. Each command has switches of
its own and at most one operand; of a switch that repeats, the last value counts, but every lock
file is kept. Words that nothing takes are gathered and refused at the end.
-/

namespace DependencyAudit.CommandLine

/-- What to run. A root or a lock file is `none`, and settings are `some none`, if the command line
asks for them but leaves their value void. -/
inductive Command where
  | scan (root : Option Path) (config : Option (Option Path)) (list : Option Path)
      (warnOnly : Bool)
  | check (manifest : Path) (locks : List (Option Path)) (config : Option (Option Path))
      (list : Option Path) (warnOnly : Bool)
  | validateList (path : Path)
  deriving DecidableEq, Repr

namespace Command

def config? : Command → Option Path
  | scan _ config _ _ => config.join
  | check _ _ config _ _ => config.join
  | validateList _ => none

/-- The files that a command names. -/
def paths : Command → List Path
  | scan _ config list _ => config.join.toList ++ list.toList
  | check manifest locks config list _ =>
    manifest :: locks.reduceOption ++ config.join.toList ++ list.toList
  | validateList path => [path]

end Command

structure Invocation where
  logLevel : Option String
  command : Command
  deriving DecidableEq, Repr

/-- Why there is no command to run. -/
inductive Stop where
  | help (program : String)
  | misuse (program : String) (e : UsageError)
  deriving DecidableEq, Repr

/-- What a run of tokens has brought: the switches with their values, the operand if one was still
awaited, and the words that nothing took. -/
structure Reading where
  switches : List (Switch × Option String)
  operand : Option String
  extras : List String
  deriving DecidableEq, Repr

namespace Reading

def empty : Reading := ⟨[], none, []⟩

def addFlag (r : Reading) (s : Switch) : Reading :=
  { r with switches := r.switches ++ [(s, none)] }

/-- A value of two dashes is void. -/
def addSwitch (r : Reading) (s : Switch) (value : String) : Reading :=
  { r with switches := r.switches ++ [(s, if value = "--" then none else some value)] }

def addExtra (r : Reading) (word : String) : Reading := { r with extras := r.extras ++ [word] }

def values (r : Reading) (s : Switch) : List (Option String) :=
  (r.switches.filter (·.1 = s)).map (·.2)

def last? (r : Reading) (s : Switch) : Option (Option String) := (r.values s).getLast?

def paths (r : Reading) (s : Switch) : List (Option Path) :=
  (r.values s).map (Option.map Path.ofText)

def path? (r : Reading) (s : Switch) : Option (Option Path) := (r.paths s).getLast?

def has (r : Reading) (s : Switch) : Bool := ! (r.values s).isEmpty

end Reading

/-- Characters attached to the short spelling of help may repeat its letter. The others are
needless, and so is an empty assignment. -/
def needlessAttached? : List Char → Option (List Char)
  | [] => some []
  | ['h'] => none
  | 'h' :: cs => needlessAttached? cs
  | cs => some cs

def needless? : Given → Option String
  | .assigned value => some value
  | .attached value => (needlessAttached? value.toList).map String.ofList

/-- Takes a switch that has no value. -/
def takeFlag (program : String) (r : Reading) (s : Switch) (given : Option Given) :
    Except Stop Reading :=
  match given.bind needless? with
  | some value => .error (.misuse program (.needlessValue s value))
  | none => if s = .help then .error (.help program) else .ok (r.addFlag s)

/-- Reads the words after a command's name. Two dashes vanish beside an argument that becomes the
operand. -/
def readCommand (program : String) (hasOperand : Bool) : Reading → List Token → Except Stop Reading
  | r, [] => .ok r
  | r, .switch _ s given :: rest =>
    if s.takesValue then
      match given, rest with
      | some given, rest => readCommand program hasOperand (r.addSwitch s given.value) rest
      | none, .argument value :: rest => readCommand program hasOperand (r.addSwitch s value) rest
      | none, _ => .error (.misuse program (.noValue s))
    else
      match takeFlag program r s given with
      | .ok r => readCommand program hasOperand r rest
      | .error stop => .error stop
  | r, .unknownSwitch word :: rest => readCommand program hasOperand (r.addExtra word) rest
  | r, .argument word :: .dashes :: rest =>
    if hasOperand && r.operand.isNone then
      readCommand program hasOperand { r with operand := some word } rest
    else readCommand program hasOperand ((r.addExtra word).addExtra "--") rest
  | r, .argument word :: rest =>
    if hasOperand && r.operand.isNone then
      readCommand program hasOperand { r with operand := some word } rest
    else readCommand program hasOperand (r.addExtra word) rest
  | r, .dashes :: rest =>
    if hasOperand && r.operand.isNone && ! rest.isEmpty then readCommand program hasOperand r rest
    else readCommand program hasOperand (r.addExtra "--") rest

/-- Reads the words up to the command's name. The command has the rest, its name first. -/
def readGeneral (program : String) : Reading → List Token → Except Stop (Reading × List String)
  | r, [] => .ok (r, [])
  | r, .switch _ s given :: rest =>
    if s.takesValue then
      match given, rest with
      | some given, rest => readGeneral program (r.addSwitch s given.value) rest
      | none, .argument value :: rest => readGeneral program (r.addSwitch s value) rest
      | none, _ => .error (.misuse program (.noValue s))
    else
      match takeFlag program r s given with
      | .ok r => readGeneral program r rest
      | .error stop => .error stop
  | r, .unknownSwitch word :: rest => readGeneral program (r.addExtra word) rest
  | r, .argument word :: rest => .ok (r, word :: rest.map Token.text)
  | r, .dashes :: rest =>
    if rest.isEmpty then .ok (r.addExtra "--", []) else .ok (r, "--" :: rest.map Token.text)

def programName : String := "npm-exposure"

def commandNames : List String := ["scan", "check", "validate-list"]

def tokens (program : String) (switches : List Switch) (words : List String) :
    Except Stop (List Token) :=
  (Token.ofWords switches words).mapError (.misuse program)

/-- Reads the words of a command that has the given switches and operand. -/
def commandReading (name : String) (switches : List Switch) (operand : Option String)
    (words : List String) : Except Stop Reading := do
  let program := programName ++ " " ++ name
  let r ← readCommand program operand.isSome .empty (← tokens program switches words)
  match operand, r.operand with
  | some operand, none => throw (.misuse program (.missing operand))
  | _, _ => return r

def operandPath (r : Reading) : Path := Path.ofText (r.operand.getD "")

/-- A command from its name and words, with the words that nothing took. -/
def command (name : String) (words : List String) : Except Stop (Command × List String) :=
  match name with
  | "scan" => do
    let r ← commandReading name [.help, .root, .config, .list, .warnOnly] none words
    return (.scan ((r.path? .root).getD (some (Path.ofText "."))) (r.path? .config)
      (r.path? .list).join (r.has .warnOnly), r.extras)
  | "check" => do
    let r ← commandReading name [.help, .lock, .config, .list, .warnOnly] (some "manifest") words
    return (.check (operandPath r) (r.paths .lock) (r.path? .config) (r.path? .list).join
      (r.has .warnOnly), r.extras)
  | "validate-list" => do
    let r ← commandReading name [.help] (some "path") words
    return (.validateList (operandPath r), r.extras)
  | _ => .error (.misuse programName (.unknownCommand name commandNames))

def parse (words : List String) : Except Stop Invocation := do
  let (r, rest) ← readGeneral programName .empty (← tokens programName [.help, .logLevel] words)
  match rest with
  | [] => throw (.misuse programName (.missing "command"))
  | name :: words =>
    let (command, extras) ← command name words
    if (r.extras ++ extras).isEmpty then return ⟨(r.last? .logLevel).join, command⟩
    else throw (.misuse programName (.unrecognized (r.extras ++ extras)))

end DependencyAudit.CommandLine
