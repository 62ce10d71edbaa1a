/-!
# UTF-8

`Utf8.decode` reads bytes as characters, refusing overlong forms, surrogates and codes beyond the
last character. A fault covers the bytes of the character begun that are in order so far.
-/

namespace DependencyAudit.Text.Utf8

inductive Reason where
  | invalidStart
  | invalidContinuation
  | unexpectedEnd
  deriving DecidableEq, Repr

/-- `span` bytes from `position` on, of which `first` is the first. -/
structure Fault where
  reason : Reason
  position : Nat
  span : Nat
  first : UInt8
  deriving DecidableEq, Repr

def Reason.message : Reason → String
  | invalidStart => "invalid start byte"
  | invalidContinuation => "invalid continuation byte"
  | unexpectedEnd => "unexpected end of data"

def hexByte (b : UInt8) : String :=
  String.ofList [Nat.digitChar (b.toNat / 16), Nat.digitChar (b.toNat % 16)]

def Fault.message (f : Fault) : String :=
  let place :=
    if f.span = 1 then s!"byte 0x{hexByte f.first} in position {f.position}"
    else s!"bytes in position {f.position}-{f.position + f.span - 1}"
  s!"'utf-8' codec can't decode {place}: {f.reason.message}"

/-- What a first byte says of its character: the number of bytes that follow, the range of the next
one and the leading bits of the code. -/
structure Lead where
  owed : Nat
  low : UInt8
  high : UInt8
  bits : Nat
  deriving DecidableEq, Repr

def lead? (b : UInt8) : Option Lead :=
  if b < 0x80 then some ⟨0, 0x80, 0xBF, b.toNat⟩
  else if b < 0xC2 then none
  else if b < 0xE0 then some ⟨1, 0x80, 0xBF, b.toNat - 0xC0⟩
  else if b = 0xE0 then some ⟨2, 0xA0, 0xBF, 0⟩
  else if b = 0xED then some ⟨2, 0x80, 0x9F, 0xD⟩
  else if b < 0xF0 then some ⟨2, 0x80, 0xBF, b.toNat - 0xE0⟩
  else if b = 0xF0 then some ⟨3, 0x90, 0xBF, 0⟩
  else if b < 0xF4 then some ⟨3, 0x80, 0xBF, b.toNat - 0xF0⟩
  else if b = 0xF4 then some ⟨3, 0x80, 0x8F, 4⟩
  else none

/-- Reads the bytes owed; `taken` is the number of bytes of the character read before. -/
def continuation (taken : Nat) (code : Nat) : (owed : Nat) → (low high : UInt8) → List UInt8 →
    Except (Reason × Nat) Nat
  | 0, _, _, _ => .ok code
  | _ + 1, _, _, [] => .error (.unexpectedEnd, taken)
  | owed + 1, low, high, b :: bs =>
    if low ≤ b && b ≤ high then
      continuation (taken + 1) (code * 64 + b.toNat % 64) owed 0x80 0xBF bs
    else .error (.invalidContinuation, taken)

/-- The character that starts with byte `b`, and the number of further bytes it takes. -/
def charAt (b : UInt8) (bs : List UInt8) : Except (Reason × Nat) (Char × Nat) :=
  match lead? b with
  | none => .error (.invalidStart, 1)
  | some lead =>
    (continuation 1 lead.bits lead.owed lead.low lead.high bs).map fun code =>
      (Char.ofNat code, lead.owed)

/-- Reads on at `position`; `skip` bytes belong to the character read last. -/
def decodeFrom : (position skip : Nat) → (done : List Char) → List UInt8 →
    Except Fault (List Char)
  | _, _, done, [] => .ok done.reverse
  | position, skip + 1, done, _ :: bs => decodeFrom (position + 1) skip done bs
  | position, 0, done, b :: bs =>
    match charAt b bs with
    | .ok (c, further) => decodeFrom (position + 1) further (c :: done) bs
    | .error (reason, span) => .error ⟨reason, position, span, b⟩

def decode (bytes : List UInt8) : Except Fault (List Char) := decodeFrom 0 0 [] bytes

end DependencyAudit.Text.Utf8
