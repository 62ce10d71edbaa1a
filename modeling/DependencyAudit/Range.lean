import DependencyAudit.Text.Blank
import DependencyAudit.Text.Split
import DependencyAudit.Version

/-!
# Version ranges

A range text is a conjunction of clauses parted by blanks, or a span `low - high`. Blanks after an
operator are dropped first, so `>= 1.0.0` is one clause. The upper end of a span stays unread until
a candidate has reached the lower end: an ill-formed upper end is noticed only then.
-/

namespace DependencyAudit

open Text

inductive Comparator where
  | atLeast
  | atMost
  | above
  | below
  | equal
  deriving DecidableEq, Repr

/-- Whether `v` stands in the relation to `bound`. Equality also compares prerelease tags, which
the precedence order leaves level. -/
def Comparator.holds (c : Comparator) (v bound : Version) : Bool :=
  match c with
  | .atLeast => (v.precedence bound).isGE
  | .atMost => (v.precedence bound).isLE
  | .above => (v.precedence bound).isGT
  | .below => (v.precedence bound).isLT
  | .equal => v == bound

inductive Clause where
  | any
  | major (n : Nat)
  | minor (n m : Nat)
  | caret (base : Version)
  | tilde (base : Version)
  | comparison (comparator : Comparator) (bound : Version)
  deriving DecidableEq, Repr

inductive Range where
  | all (clauses : List Clause)
  | between (low : Version) (high : String)
  deriving DecidableEq, Repr

namespace Range

inductive Error where
  | malformed (token : String)
  | longNumeral (n : LongNumeral)
  deriving DecidableEq, Repr

def Error.message : Error → String
  | .malformed token => s!"invalid version '{token}'"
  | .longNumeral n => n.message

end Range

namespace Clause

def bound (token : String) : Except Range.Error Version :=
  match Version.parse token with
  | .ok v => .ok v
  | .error (.malformed token) => .error (.malformed token)
  | .error (.longNumeral n) => .error (.longNumeral n)

def isWildcard (s : List Char) : Bool := s == ['*'] || s == ['x'] || s == ['X']

/-- The partial versions: a major number, or a major and a minor number, filled up to at most
three parts by wildcards. -/
def partialVersion? (word : List Char) : Option (Except LongNumeral Clause) :=
  match cut (· == '.') word with
  | [n] => if isNumeral n then some (major <$> number n) else none
  | [n, m] =>
    if ! isNumeral n then none
    else if isWildcard m then some (major <$> number n)
    else if isNumeral m then some (minor <$> number n <*> number m)
    else none
  | [n, m, p] =>
    if ! isNumeral n || ! isWildcard p then none
    else if isWildcard m then some (major <$> number n)
    else if isNumeral m then some (minor <$> number n <*> number m)
    else none
  | _ => none

def ofOperator (word : List Char) : Except Range.Error Clause :=
  match word with
  | '^' :: token => caret <$> bound (String.ofList token)
  | '~' :: token => tilde <$> bound (String.ofList token)
  | '>' :: '=' :: token => comparison .atLeast <$> bound (String.ofList token)
  | '<' :: '=' :: token => comparison .atMost <$> bound (String.ofList token)
  | '>' :: token => comparison .above <$> bound (String.ofList token)
  | '<' :: token => comparison .below <$> bound (String.ofList token)
  | '=' :: token => comparison .equal <$> bound (String.ofList token)
  | token => comparison .equal <$> bound (String.ofList token)

def parse (word : List Char) : Except Range.Error Clause :=
  if isWildcard word then .ok any
  else match partialVersion? word with
    | some clause => clause.mapError .longNumeral
    | none => ofOperator word

/-- All but comparisons admit releases only. A caret keeps the leftmost number that is not zero,
a tilde the first two. -/
def admits (c : Clause) (v : Version) : Bool :=
  match c with
  | any => v.isRelease
  | major n => v.isRelease && v.major == n
  | minor n m => v.isRelease && v.major == n && v.minor == m
  | caret base =>
    v.isRelease &&
      if base.major == 0 && base.minor == 0 then v.sameRelease base
      else if base.major == 0 then v.major == 0 && v.minor == base.minor && base.patch ≤ v.patch
      else v.major == base.major && (v.precedence base).isGE
  | tilde base =>
    v.isRelease && v.major == base.major && v.minor == base.minor && base.patch ≤ v.patch
  | comparison comparator bound => comparator.holds v bound

end Clause

namespace Range

def isOperator (c : Char) : Bool := c == '<' || c == '>' || c == '=' || c == '^' || c == '~'

/-- Drops the blanks that follow an operator; `afterOperator` says whether one stands just
before. -/
def glue (afterOperator : Bool) : List Char → List Char
  | [] => []
  | c :: cs => if afterOperator && isBlank c then glue true cs else c :: glue (isOperator c) cs

def normalise (s : List Char) : List Char := glue false (trim s)

def ofWords : List (List Char) → Except Error Range
  | [] => .ok (.all [.any])
  | [low, ['-'], high] => do
    return .between (← Clause.bound (String.ofList low)) (String.ofList high)
  | ws => .all <$> ws.mapM Clause.parse

def parse (text : String) : Except Error Range := ofWords (words (normalise text.toList))

def admits (range : Range) (candidate : Option Version) : Except Error Bool :=
  match range, candidate with
  | _, none => .ok false
  | .all clauses, some v => .ok (clauses.all (·.admits v))
  | .between low high, some v =>
    if Comparator.atLeast.holds v low then Comparator.atMost.holds v <$> Clause.bound high
    else .ok false

/-- The version that a candidate text names, if it names one. -/
def candidate (text : String) : Except LongNumeral (Option Version) :=
  match Version.parse (trimString text) with
  | .ok v => .ok (some v)
  | .error (.malformed _) => .ok none
  | .error (.longNumeral n) => .error n

def evaluate (version range : String) : Except Error Bool := do
  let candidate ← (candidate version).mapError .longNumeral
  (← parse range).admits candidate

/-- An ill-formed range admits nothing. -/
def satisfies (version range : String) : Except LongNumeral Bool :=
  match evaluate version range with
  | .ok admitted => .ok admitted
  | .error (.malformed _) => .ok false
  | .error (.longNumeral n) => .error n

/-- An ill-formed range, such as a tag or an address, covers only the version that is the very
same text. -/
def covers (range version : String) : Except LongNumeral Bool :=
  match evaluate version range with
  | .ok admitted => .ok admitted
  | .error (.malformed _) => .ok (range == version)
  | .error (.longNumeral n) => .error n

end Range
end DependencyAudit
