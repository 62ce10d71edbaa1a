import DependencyAudit.Text.Split

/-!
# Blank characters

Blanks are the white space characters of the Unicode standard together with the four information
separators U+001C to U+001F. `trim` strips them at both ends, `words` cuts a text at them.
-/

namespace DependencyAudit.Text

def isBlank (c : Char) : Bool :=
  let n := c.toNat
  (9 ≤ n && n ≤ 13) || (28 ≤ n && n ≤ 32) || n == 0x85 || n == 0xA0 || n == 0x1680 ||
    (0x2000 ≤ n && n ≤ 0x200A) || n == 0x2028 || n == 0x2029 || n == 0x202F || n == 0x205F ||
    n == 0x3000

def trimLeft (s : List Char) : List Char := s.dropWhile isBlank

def trimRight (s : List Char) : List Char := (s.reverse.dropWhile isBlank).reverse

def trim (s : List Char) : List Char := trimRight (trimLeft s)

/-- The maximal runs of other characters, in order. -/
def words (s : List Char) : List (List Char) := (cut isBlank s).filter (! ·.isEmpty)

@[simp] theorem words_nil : words [] = [] := rfl

theorem words_append_cons {c : Char} (h : isBlank c) (s t : List Char) :
    words (s ++ c :: t) = words s ++ words t := by
  simp [words, cut_append_cons h]

theorem words_cons_of_isBlank {c : Char} (h : isBlank c) (s : List Char) :
    words (c :: s) = words s := by
  simpa using words_append_cons h [] s

theorem words_of_none_blank {s : List Char} (hs : s ≠ []) (h : ∀ c ∈ s, ¬ isBlank c) :
    words s = [s] := by
  simp [words, cut_of_none_separates h, hs]

def isBlankText (s : String) : Bool := s.toList.all isBlank

def trimString (s : String) : String := String.ofList (trim s.toList)

end DependencyAudit.Text
