import DependencyAudit.Proofs.Text.Words
import DependencyAudit.Proofs.Version.Order
import DependencyAudit.Range

/-!
# The grammar of ranges

A range is empty, a span of two versions or a conjunction of terms. A term is a wildcard, a partial
version or a version, with or without an operator in front. What a term admits is told by the order
of versions: all terms but comparisons and bare versions stand for windows of releases. A range may
be written with any blanks at its ends, between its terms and behind its operators.
-/

namespace DependencyAudit.Range.Grammar

open Text Version

/-- A word that is read as a version. The blanks behind one that ends in an operator would be
lost. -/
structure VersionToken where
  text : List Char
  version : Version
  parse_text : Version.parse (String.ofList text) = .ok version
  not_blank : ∀ c ∈ text, ¬ isBlank c
  not_operator : ∀ c ∈ text.getLast?, ¬ isOperator c

structure Numeral where
  digits : List Char
  isNumeral_digits : isNumeral digits
  length_le : digits.length ≤ digitLimit

def Numeral.value (n : Numeral) : Nat := numeralValue n.digits

inductive Wildcard where
  | star
  | small
  | capital

def Wildcard.char : Wildcard → Char
  | star => '*'
  | small => 'x'
  | capital => 'X'

inductive Term where
  | wildcard (w : Wildcard)
  | major (n : Numeral) (fill : List Wildcard) (length_le : fill.length ≤ 2)
  | minor (n m : Numeral) (fill : List Wildcard) (length_le : fill.length ≤ 1)
  | caret (t : VersionToken)
  | tilde (t : VersionToken)
  | comparison (comparator : Comparator) (t : VersionToken)
  | bare (t : VersionToken)

inductive Expression where
  | empty
  | span (low high : VersionToken)
  | terms (first : Term) (rest : List Term)

/-- The least release above all that a caret admits: the next one in which the leftmost number that
is not zero differs. -/
def caretEnd (v : Version) : Version :=
  if 0 < v.major then release (v.major + 1) 0 0
  else if 0 < v.minor then release 0 (v.minor + 1) 0
  else release 0 0 (v.patch + 1)

def tildeEnd (v : Version) : Version := release v.major (v.minor + 1) 0

def Comparison (comparator : Comparator) (v bound : Version) : Prop :=
  match comparator with
  | .atLeast => v.precedence bound ≠ .lt
  | .atMost => v.precedence bound ≠ .gt
  | .above => v.precedence bound = .gt
  | .below => v.precedence bound = .lt
  | .equal => v = bound

def Term.Admits (v : Version) : Term → Prop
  | wildcard _ => v.isRelease
  | major n _ _ => v.InWindow (release n.value 0 0) (release (n.value + 1) 0 0)
  | minor n m _ _ => v.InWindow (release n.value m.value 0) (release n.value (m.value + 1) 0)
  | caret t => v.InWindow t.version (caretEnd t.version)
  | tilde t => v.InWindow t.version (tildeEnd t.version)
  | comparison comparator t => Comparison comparator v t.version
  | bare t => v = t.version

def Expression.Admits (v : Version) : Expression → Prop
  | empty => v.isRelease
  | span low high => v.precedence low.version ≠ .lt ∧ v.precedence high.version ≠ .gt
  | terms first rest => ∀ t ∈ first :: rest, t.Admits v

def comparatorText : Comparator → List Char
  | .atLeast => ['>', '=']
  | .atMost => ['<', '=']
  | .above => ['>']
  | .below => ['<']
  | .equal => ['=']

namespace Term

def operator : Term → List Char
  | caret _ => ['^']
  | tilde _ => ['~']
  | comparison comparator _ => comparatorText comparator
  | _ => []

/-- Parts with points between them. -/
def dotted (first : List Char) (rest : List (List Char)) : List Char :=
  first ++ rest.flatMap ('.' :: ·)

def fillParts (fill : List Wildcard) : List (List Char) := fill.map fun w => [w.char]

def operand : Term → List Char
  | wildcard w => [w.char]
  | major n fill _ => dotted n.digits (fillParts fill)
  | minor n m fill _ => dotted n.digits (m.digits :: fillParts fill)
  | caret t => t.text
  | tilde t => t.text
  | comparison _ t => t.text
  | bare t => t.text

/-- A term in writing, with the blanks behind its operator if it has one. -/
inductive Written (t : Term) : List Char → Prop
  | loose {gap : List Char} (hgap : AllBlank gap) (hoperator : t.operator = [] → gap = []) :
      Written t (t.operator ++ (gap ++ t.operand))

end Term

/-- Terms in writing, with a gap between each two. -/
inductive TermsWritten : List Term → List Char → Prop
  | one {t : Term} {s : List Char} (h : t.Written s) : TermsWritten [t] s
  | cons {t : Term} {ts : List Term} {s gap r : List Char} (h : t.Written s) (hgap : AllBlank gap)
      (hne : gap ≠ []) (hts : TermsWritten ts r) : TermsWritten (t :: ts) (s ++ (gap ++ r))

inductive Expression.Written : Expression → List Char → Prop
  | empty : Written .empty []
  | span {low high : VersionToken} {gap gap' : List Char} (hgap : AllBlank gap) (hne : gap ≠ [])
      (hgap' : AllBlank gap') (hne' : gap' ≠ []) :
      Written (.span low high) (low.text ++ (gap ++ (['-'] ++ (gap' ++ high.text))))
  | terms {first : Term} {rest : List Term} {s : List Char} (h : TermsWritten (first :: rest) s) :
      Written (.terms first rest) s

/-- A text that writes an expression, blanks at its ends aside. -/
def Expression.Renders (e : Expression) (text : String) : Prop :=
  ∃ before body after, AllBlank before ∧ AllBlank after ∧ e.Written body ∧
    text.toList = before ++ (body ++ after)

end DependencyAudit.Range.Grammar
