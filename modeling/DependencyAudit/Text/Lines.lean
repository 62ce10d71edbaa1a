import DependencyAudit.Text.Split

/-!
# Lines

A carriage return and the line feed after it end one line. `unifyNewlines` turns each of these ends
into a line feed, and `lines` cuts at the other Unicode line boundaries as well; the last line needs
no end.
-/

namespace DependencyAudit.Text

/-- A line feed that follows a return is dropped, and every return becomes a line feed. -/
def unifyNewlines (s : List Char) : List Char :=
  (s.zip (' ' :: s)).filterMap fun (c, before) =>
    if c == '\n' && before == '\r' then none
    else some (if c == '\r' then '\n' else c)

def isLineBoundary (c : Char) : Bool :=
  let n := c.toNat
  (10 ≤ n && n ≤ 13) || (0x1C ≤ n && n ≤ 0x1E) || n == 0x85 || n == 0x2028 || n == 0x2029

def lines (s : List Char) : List (List Char) :=
  let parts := cut isLineBoundary (unifyNewlines s)
  if parts.getLast? = some [] then parts.dropLast else parts

end DependencyAudit.Text
