import Mathlib.Data.List.Basic
import DependencyAudit.Text.Lines

/-!
# Lines in writing

Lines may be written one below the other with any of the line ends between them, as long as a return
is not followed by a line feed that was meant to end the next line. Cutting the text gives the lines
back, but for an empty line at the end.
-/

namespace DependencyAudit.Text

def OneLine (l : List Char) : Prop := ∀ c ∈ l, ¬ isLineBoundary c

theorem oneLine_of_flatten {ls : List (List Char)} (h : ls.flatten.any isLineBoundary = false) :
    ∀ l ∈ ls, OneLine l := fun l hl c hc =>
  List.any_eq_false.1 h c (List.mem_flatten.2 ⟨l, hl, hc⟩)

/-- What may stand between two lines. -/
inductive IsLineEnd : List Char → Prop
  | boundary {c : Char} (h : isLineBoundary c) : IsLineEnd [c]
  | returnFeed : IsLineEnd ['\r', '\n']

/-- Lines with an end between each two. -/
inductive WrittenLines : List (List Char) → List Char → Prop
  | nil : WrittenLines [] []
  | one {l : List Char} (h : OneLine l) : WrittenLines [l] l
  | cons {l ending s : List Char} {ls : List (List Char)} (h : OneLine l) (hend : IsLineEnd ending)
      (hne : ls ≠ []) (hreturn : ending = ['\r'] → s.head? ≠ some '\n') (hls : WrittenLines ls s) :
      WrittenLines (l :: ls) (l ++ (ending ++ s))

/-- Lines joined by one and the same end. -/
theorem writtenLines_intercalate {ending : List Char} (hend : IsLineEnd ending)
    (hreturn : ending ≠ ['\r']) {ls : List (List Char)} (h : ∀ l ∈ ls, OneLine l) :
    WrittenLines ls (ending.intercalate ls) := by
  induction ls with
  | nil => exact .nil
  | cons l ls ih =>
    obtain ⟨hl, hls⟩ := List.forall_mem_cons.1 h
    cases ls with
    | nil =>
      rw [List.intercalate_singleton]
      exact .one hl
    | cons m ls =>
      rw [List.intercalate_cons_cons, List.append_assoc]
      exact .cons hl hend (List.cons_ne_nil m ls) (fun he => absurd he hreturn) (ih hls)

/-- The unified text behind a character that stands before it. -/
def unifyBehind (before : Char) (s : List Char) : List Char :=
  (s.zip (before :: s)).filterMap fun (c, before) =>
    if c == '\n' && before == '\r' then none
    else some (if c == '\r' then '\n' else c)

theorem unifyBehind_cons {c before : Char} (h : c = '\n' → before ≠ '\r') (s : List Char) :
    unifyBehind before (c :: s) = (if c = '\r' then '\n' else c) :: unifyBehind c s := by
  have hkept : (c == '\n' && before == '\r') = false := by simpa using h
  unfold unifyBehind
  rw [List.zip_cons_cons, List.filterMap_cons]
  simp only [hkept, Bool.false_eq_true, if_false, beq_iff_eq]

theorem exists_unifyBehind_append {l : List Char} (h : OneLine l) (before : Char) (s : List Char) :
    ∃ last, unifyBehind before (l ++ s) = l ++ unifyBehind last s ∧
      (last = '\r' → l = [] ∧ before = '\r') := by
  induction l generalizing before with
  | nil => exact ⟨before, rfl, fun hlast => ⟨rfl, hlast⟩⟩
  | cons c l ih =>
    obtain ⟨hc, hl⟩ := List.forall_mem_cons.1 h
    obtain ⟨last, hlast, hreturn⟩ := ih hl c
    have hkept : c ≠ '\n' ∧ c ≠ '\r' :=
      ⟨fun hfeed => hc (hfeed ▸ rfl), fun hreturn => hc (hreturn ▸ rfl)⟩
    refine ⟨last, ?_, fun hlast => absurd (hreturn hlast).2 hkept.2⟩
    rw [List.cons_append, unifyBehind_cons (fun hfeed => absurd hfeed hkept.1), if_neg hkept.2,
      hlast, List.cons_append]

theorem unifyBehind_returnFeed (before : Char) (s : List Char) :
    unifyBehind before ('\r' :: '\n' :: s) = '\n' :: unifyBehind '\n' s := rfl

theorem cut_unifyBehind {ls : List (List Char)} {s : List Char} (h : WrittenLines ls s)
    (hne : ls ≠ []) {before : Char} (hbefore : before = '\r' → s.head? ≠ some '\n') :
    cut isLineBoundary (unifyBehind before s) = ls := by
  induction h generalizing before with
  | nil => contradiction
  | @one l h =>
    obtain ⟨last, hlast, -⟩ := exists_unifyBehind_append h before []
    have hempty : unifyBehind last [] = [] := rfl
    rw [List.append_nil, hempty, List.append_nil] at hlast
    rw [hlast, cut_of_none_separates h]
  | @cons l ending s ls h hend hls hreturn hwritten ih =>
    obtain ⟨last, hunify, hempty⟩ := exists_unifyBehind_append h before (ending ++ s)
    rw [hunify]
    cases hend with
    | returnFeed =>
      rw [List.cons_append, List.singleton_append, unifyBehind_returnFeed, cut_append_cons rfl,
        cut_of_none_separates h, ih hls fun hc => absurd hc (by decide)]
      rfl
    | @boundary c hc =>
      have hfeed : c = '\n' → last ≠ '\r' := by
        rintro rfl hlast
        obtain ⟨rfl, hreturn⟩ := hempty hlast
        exact hbefore hreturn rfl
      have hseparates : isLineBoundary (if c = '\r' then '\n' else c) := by
        split
        · rfl
        · exact hc
      have hnext : c = '\r' → s.head? ≠ some '\n' := fun h => hreturn (by rw [h])
      rw [List.singleton_append, unifyBehind_cons hfeed, cut_append_cons hseparates,
        cut_of_none_separates h, ih hls hnext]
      rfl

/-- Cutting gives the lines back. An empty line at the end is not seen. -/
theorem WrittenLines.lines_eq {ls : List (List Char)} {s : List Char} (h : WrittenLines ls s) :
    lines s = if ls.getLast? = some [] then ls.dropLast else ls := by
  by_cases hne : ls = []
  · subst hne
    cases h
    rfl
  · have hcut : cut isLineBoundary (unifyNewlines s) = ls :=
      cut_unifyBehind h hne fun hc => absurd hc (by decide)
    simp only [lines, hcut]

theorem WrittenLines.exists_append {ls : List (List Char)} {s : List Char}
    (h : WrittenLines ls s) : ∃ last, ls = lines s ++ last ∧ ∀ l ∈ last, l = [] := by
  rw [h.lines_eq]
  split
  · rename_i hlast
    exact ⟨[[]], (List.dropLast_append_getLast? [] hlast).symm, fun l hl => List.mem_singleton.1 hl⟩
  · exact ⟨[], (List.append_nil ls).symm, fun l hl => absurd hl List.not_mem_nil⟩

end DependencyAudit.Text
