/-!
# Records of comma-separated values

A field may stand between quotation marks, where a doubled mark stands for one mark and line ends
are ordinary characters. Blanks at the start of a field are skipped, characters after a closing mark
are added to the field as they are. An empty line is a record without fields.
-/

namespace DependencyAudit.Csv

inductive Fault where
  | strayReturn
  | longField
  deriving DecidableEq, Repr

def fieldLimit : Nat := 131072

def Fault.message : Fault → String
  | strayReturn =>
    "new-line character seen in unquoted field - do you need to open the file in " ++
      "universal-newline mode?"
  | longField => s!"field larger than field limit ({fieldLimit})"

abbrev Record := List String

inductive Position where
  | recordStart
  | fieldStart
  | inField
  | inQuotes
  | afterQuote
  | lineEnd
  deriving DecidableEq, Repr

/-- Where the reader stands. The field, the fields and the records read so far are in reverse. -/
structure State where
  position : Position
  field : List Char
  length : Nat
  fields : List String
  records : List Record

namespace State

def start : State := ⟨.recordStart, [], 0, [], []⟩

def addChar (s : State) (position : Position) (c : Char) : Except Fault State :=
  if s.length < fieldLimit then
    .ok { s with position := position, field := c :: s.field, length := s.length + 1 }
  else .error .longField

def endField (s : State) (position : Position) : State :=
  { s with position := position, field := [], length := 0,
           fields := String.ofList s.field.reverse :: s.fields }

def endRecord (s : State) : State :=
  ⟨.recordStart, [], 0, [], s.fields.reverse :: s.records⟩

/-- At a line end a field ends, unless none has begun. -/
def endLine (s : State) : State :=
  match s.position with
  | .recordStart => s
  | .lineEnd => s
  | _ => s.endField .lineEnd

def step (s : State) (c : Char) : Except Fault State :=
  match s.position with
  | .inQuotes => if c = '"' then .ok { s with position := .afterQuote } else s.addChar .inQuotes c
  | position =>
    if c = '\n' then .ok s.endLine.endRecord
    else if c = '\r' then .ok { s.endLine with position := .lineEnd }
    else match position with
      | .lineEnd => .error .strayReturn
      | .afterQuote =>
        if c = '"' then s.addChar .inQuotes c
        else if c = ',' then .ok (s.endField .fieldStart)
        else s.addChar .inField c
      | .inField => if c = ',' then .ok (s.endField .fieldStart) else s.addChar .inField c
      | _ =>
        if c = '"' then .ok { s with position := .inQuotes }
        else if c = ' ' then .ok { s with position := .fieldStart }
        else if c = ',' then .ok (s.endField .fieldStart)
        else s.addChar .inField c

/-- The end of the text ends the record begun, even between quotation marks. -/
def finish (s : State) : State :=
  if s.position = .recordStart then s else s.endLine.endRecord

end State

/-- The records before the first fault, and that fault. -/
structure Reading where
  records : List Record
  fault : Option Fault
  deriving DecidableEq, Repr

def readFrom (s : State) : List Char → Reading
  | [] => ⟨s.finish.records.reverse, none⟩
  | c :: cs =>
    match s.step c with
    | .ok next => readFrom next cs
    | .error fault => ⟨s.records.reverse, some fault⟩

def read (text : String) : Reading := readFrom .start text.toList

end DependencyAudit.Csv
