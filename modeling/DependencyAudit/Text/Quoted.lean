import DependencyAudit.Text.Printable

/-!
# Quoted text

A text is quoted between apostrophes, or between quotation marks if it holds an apostrophe and no
quotation mark. Backslashes, the closing mark and characters that are not printable are escaped, the
latter by their code in two, four or eight hexadecimal digits.
-/

namespace DependencyAudit.Text

/-- At least `width` hexadecimal digits in lower case. -/
def hexDigits (width n : Nat) : List Char :=
  let digits := Nat.toDigits 16 n
  List.replicate (width - digits.length) '0' ++ digits

def quotationMark (s : List Char) : Char :=
  if s.contains '\'' && ! s.contains '"' then '"' else '\''

def escapeChar (mark c : Char) : List Char :=
  if c == mark || c == '\\' then ['\\', c]
  else if c == '\n' then ['\\', 'n']
  else if c == '\r' then ['\\', 'r']
  else if c == '\t' then ['\\', 't']
  else if isPrintable c then [c]
  else if c.toNat < 0x100 then '\\' :: 'x' :: hexDigits 2 c.toNat
  else if c.toNat < 0x10000 then '\\' :: 'u' :: hexDigits 4 c.toNat
  else '\\' :: 'U' :: hexDigits 8 c.toNat

def quoted (s : List Char) : List Char :=
  let mark := quotationMark s
  mark :: s.flatMap (escapeChar mark) ++ [mark]

def quotedString (s : String) : String := String.ofList (quoted s.toList)

end DependencyAudit.Text
