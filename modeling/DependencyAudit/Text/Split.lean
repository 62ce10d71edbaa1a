/-!
# Cutting a text

`cut` cuts at every character that separates, `pieces` at the occurrences of a longer separator,
taken from the left without overlap. Both keep empty parts, so there is always one part more than
there are cuts.
-/

namespace DependencyAudit.Text

/-- Puts a character before the first of the parts that follow it. -/
def pushFront (c : Char) : List (List Char) → List (List Char)
  | part :: parts => (c :: part) :: parts
  | [] => [[c]]

def cut (separates : Char → Bool) (s : List Char) : List (List Char) :=
  s.foldr (fun c parts => if separates c then [] :: parts else pushFront c parts) [[]]

section

variable {separates : Char → Bool}

@[simp] theorem cut_nil : cut separates [] = [[]] := rfl

theorem cut_cons_of_separates {c : Char} (h : separates c) (s : List Char) :
    cut separates (c :: s) = [] :: cut separates s := by
  simp [cut, h]

theorem cut_cons_of_not_separates {c : Char} (h : ¬ separates c) (s : List Char) :
    cut separates (c :: s) = pushFront c (cut separates s) := by
  simp [cut, h]

theorem cut_ne_nil (s : List Char) : cut separates s ≠ [] := by
  cases s with
  | nil => simp
  | cons c s =>
    by_cases h : separates c
    · simp [cut_cons_of_separates h]
    · rw [cut_cons_of_not_separates h]
      cases cut separates s <;> simp [pushFront]

theorem pushFront_append {parts : List (List Char)} (h : parts ≠ []) (c : Char)
    (more : List (List Char)) : pushFront c (parts ++ more) = pushFront c parts ++ more := by
  cases parts with
  | nil => contradiction
  | cons part parts => rfl

theorem cut_append_cons {c : Char} (h : separates c) (s t : List Char) :
    cut separates (s ++ c :: t) = cut separates s ++ cut separates t := by
  induction s with
  | nil => simp [cut_cons_of_separates h]
  | cons d s ih =>
    by_cases hd : separates d
    · simp [cut_cons_of_separates hd, ih]
    · rw [List.cons_append, cut_cons_of_not_separates hd, ih, cut_cons_of_not_separates hd,
        pushFront_append (cut_ne_nil s)]

theorem cut_of_none_separates {s : List Char} (h : ∀ c ∈ s, ¬ separates c) :
    cut separates s = [s] := by
  induction s with
  | nil => rfl
  | cons c s ih =>
    rw [cut_cons_of_not_separates (h c (by simp)), ih fun d hd => h d (by simp [hd])]
    rfl

end

/-- Cuts what is left after `skip` characters, the rest of a separator already found. `part` is the
part begun, in reverse. -/
def piecesFrom (separator : List Char) : (skip : Nat) → (part : List Char) → List Char →
    List (List Char)
  | _, part, [] => [part.reverse]
  | skip + 1, part, _ :: cs => piecesFrom separator skip part cs
  | 0, part, c :: cs =>
    if separator.isPrefixOf (c :: cs) then
      part.reverse :: piecesFrom separator (separator.length - 1) [] cs
    else piecesFrom separator 0 (c :: part) cs

def pieces (separator s : List Char) : List (List Char) := piecesFrom separator 0 [] s

theorem piecesFrom_skip (separator : List Char) (skip : Nat) (part s : List Char) :
    piecesFrom separator skip part s = piecesFrom separator 0 part (s.drop skip) := by
  induction skip generalizing s with
  | zero => rfl
  | succ skip ih =>
    cases s with
    | nil => rw [List.drop_nil, piecesFrom, piecesFrom]
    | cons c s => rw [piecesFrom, ih, List.drop_succ_cons]

end DependencyAudit.Text
