import Mathlib.Logic.Relation
import DependencyAudit.Proofs.Text.Lines
import DependencyAudit.Proofs.Text.Words

/-!
# The layout of a text

What a text says line by line is what is left of its lines without blanks at their ends and without
those that are blank. It stays the same whichever line ends are written, wherever blank lines are
put in and whatever blanks stand at the ends of lines.
-/

namespace DependencyAudit.Text

/-- The lines that are not blank, without the blanks at their ends. -/
def bare (ls : List (List Char)) : List (List Char) := (ls.map trimRight).filter (! ·.isEmpty)

/-- What a text says, line by line. -/
def content (s : List Char) : List (List Char) := bare (cut isLineBoundary s)

/-- A return before every line feed. -/
def withReturns (s : List Char) : List Char :=
  s.flatMap fun c => if c = '\n' then ['\r', '\n'] else [c]

/-- A change of the layout: returns before all line feeds, a line feed at the end, a blank line at
the start or behind a line end, blanks before a line end or at the end. -/
inductive Relaid : List Char → List Char → Prop
  | returns (s : List Char) : Relaid s (withReturns s)
  | finalFeed (s : List Char) : Relaid s (s ++ ['\n'])
  | blankLine (before after : List Char) {gap ending : List Char} (hgap : AllBlank gap)
      (hending : IsLineEnd ending) (hbefore : ∀ c ∈ before.getLast?, isLineBoundary c) :
      Relaid (before ++ after) (before ++ (gap ++ (ending ++ after)))
  | trailing (before after : List Char) {gap : List Char} (hgap : AllBlank gap)
      (hafter : ∀ c ∈ after.head?, isLineBoundary c) :
      Relaid (before ++ after) (before ++ (gap ++ after))

variable {s t gap : List Char}

/-- A text is one line, or a line with a boundary and a text behind it. -/
@[elab_as_elim]
theorem induction_on_lines {P : List Char → Prop} (s : List Char) (one : ∀ l, OneLine l → P l)
    (cons : ∀ l c s, OneLine l → isLineBoundary c → P s → P (l ++ c :: s)) : P s := by
  -- `l` is the line begun before `s`
  suffices h : ∀ l, OneLine l → P (l ++ s) from h [] nofun
  induction s with
  | nil => exact fun l hl => (List.append_nil l).symm ▸ one l hl
  | cons c s ih =>
    intro l hl
    by_cases hc : isLineBoundary c
    · exact cons l c s hl hc (ih [] nofun)
    · have hlonger : OneLine (l ++ [c]) :=
        List.forall_mem_append.2 ⟨hl, List.forall_mem_singleton.2 hc⟩
      rw [List.append_cons]
      exact ih (l ++ [c]) hlonger

theorem bare_append (ls ms : List (List Char)) : bare (ls ++ ms) = bare ls ++ bare ms := by
  rw [bare, List.map_append, List.filter_append, ← bare, ← bare]

theorem bare_cons (l : List Char) (ls : List (List Char)) :
    bare (l :: ls) = if trimRight l = [] then bare ls else trimRight l :: bare ls := by
  rw [bare, List.map_cons, List.filter_cons, ← bare]
  by_cases h : trimRight l = [] <;> simp [h]

theorem content_append_cons {c : Char} (h : isLineBoundary c) (s t : List Char) :
    content (s ++ c :: t) = content s ++ content t := by
  rw [content, cut_append_cons h, bare_append, ← content, ← content]

theorem content_cons {c : Char} (h : isLineBoundary c) (s : List Char) :
    content (c :: s) = content s := content_append_cons h [] s

theorem content_of_oneLine (h : OneLine s) : content s = bare [s] := by
  rw [content, cut_of_none_separates h]

theorem content_line_append {l : List Char} (hl : OneLine l) (h : OneLine gap)
    (hgap : AllBlank gap) : content (l ++ gap) = content l := by
  have hlonger : OneLine (l ++ gap) := List.forall_mem_append.2 ⟨hl, h⟩
  rw [content_of_oneLine hlonger, content_of_oneLine hl, bare, bare, List.map_singleton,
    List.map_singleton, trimRight_append_blanks hgap]

theorem content_blanks (hgap : AllBlank gap) : content gap = [] := by
  induction gap using induction_on_lines with
  | one gap h => exact content_line_append (l := []) nofun h hgap
  | cons gap c rest h hc ih =>
    obtain ⟨hfirst, hrest⟩ := List.forall_mem_append.1 hgap
    rw [content_append_cons hc, ih (AllBlank.of_cons hrest).2, List.append_nil]
    exact content_line_append (l := []) nofun h hfirst

theorem content_append_blanks (hgap : AllBlank gap) (s : List Char) :
    content (s ++ gap) = content s := by
  induction s using induction_on_lines with
  | one l hl =>
    induction gap using induction_on_lines with
    | one gap h => exact content_line_append hl h hgap
    | cons gap c rest h hc _ =>
      obtain ⟨hfirst, hrest⟩ := List.forall_mem_append.1 hgap
      rw [← List.append_assoc, content_append_cons hc, content_line_append hl h hfirst,
        content_blanks (AllBlank.of_cons hrest).2, List.append_nil]
  | cons l c s _ hc ih =>
    rw [List.append_assoc, List.cons_append, content_append_cons hc, content_append_cons hc, ih]

theorem content_unifyBehind (before : Char) (s : List Char) :
    content (unifyBehind before s) = content s := by
  induction s using induction_on_lines generalizing before with
  | one l hl =>
    obtain ⟨last, hlast, -⟩ := exists_unifyBehind_append hl before []
    have hempty : unifyBehind last [] = [] := rfl
    rw [hempty, List.append_nil] at hlast
    rw [hlast]
  | cons l c s hl hc ih =>
    obtain ⟨last, hlast, hreturn⟩ := exists_unifyBehind_append hl before (c :: s)
    rw [hlast]
    by_cases hdropped : c = '\n' ∧ last = '\r'
    · obtain ⟨rfl, rfl⟩ := hdropped
      have hfeed : unifyBehind '\r' ('\n' :: s) = unifyBehind '\n' s := rfl
      rw [(hreturn rfl).1, hfeed, List.nil_append, List.nil_append, ih, content_cons hc]
    · have hend : isLineBoundary (if c = '\r' then '\n' else c) := by
        split
        · rfl
        · exact hc
      rw [unifyBehind_cons fun hfeed hlast => hdropped ⟨hfeed, hlast⟩, content_append_cons hend,
        content_append_cons hc, ih]

/-- Cut at every boundary, a text has an empty line within each return with a line feed, and one at
its end. Neither says anything. -/
theorem bare_lines (s : List Char) : bare (lines s) = content s := by
  have hcut : bare (cut isLineBoundary (unifyNewlines s)) = content s := content_unifyBehind ' ' s
  simp only [lines]
  split
  · rename_i hlast
    rw [← hcut]
    conv_rhs => rw [← List.dropLast_append_getLast? [] hlast, bare_append]
    exact (List.append_nil _).symm
  · exact hcut

theorem content_withReturns (s : List Char) : content (withReturns s) = content s := by
  have hline : ∀ l, OneLine l → withReturns l = l := by
    intro l hl
    have hkept : ∀ c ∈ l, (if c = '\n' then ['\r', '\n'] else [c]) = [c] := by
      intro c hc
      refine if_neg ?_
      rintro rfl
      exact hl _ hc rfl
    rw [withReturns, List.flatMap_congr hkept, List.flatMap_singleton']
  induction s using induction_on_lines with
  | one l hl => rw [hline l hl]
  | cons l c s hl hc ih =>
    have happend : withReturns (l ++ c :: s) =
        l ++ ((if c = '\n' then ['\r', '\n'] else [c]) ++ withReturns s) := by
      rw [withReturns, List.flatMap_append, List.flatMap_cons, ← withReturns, ← withReturns,
        hline l hl]
    rw [happend, content_append_cons hc]
    split
    · rw [List.cons_append, List.singleton_append, content_append_cons rfl, content_cons rfl, ih]
    · rw [List.singleton_append, content_append_cons hc, ih]

theorem IsLineEnd.exists_concat {ending : List Char} (h : IsLineEnd ending) :
    ∃ rest c, AllBlank rest ∧ isLineBoundary c ∧ ending = rest ++ [c] := by
  cases h with
  | @boundary c hc => exact ⟨[], c, allBlank_nil, hc, rfl⟩
  | returnFeed => exact ⟨['\r'], '\n', List.forall_mem_singleton.2 rfl, rfl, rfl⟩

theorem content_blankLine {ending : List Char} (hgap : AllBlank gap) (hending : IsLineEnd ending)
    (s : List Char) : content (gap ++ (ending ++ s)) = content s := by
  obtain ⟨rest, c, hrest, hc, rfl⟩ := hending.exists_concat
  have hblank : AllBlank (gap ++ rest) := List.forall_mem_append.2 ⟨hgap, hrest⟩
  have hassoc : gap ++ (rest ++ [c] ++ s) = gap ++ rest ++ c :: s := by simp
  rw [hassoc, content_append_cons hc, content_blanks hblank, List.nil_append]

theorem content_relaid (h : Relaid s t) : content t = content s := by
  cases h with
  | returns => exact content_withReturns s
  | finalFeed => exact content_append_blanks (List.forall_mem_singleton.2 rfl) s
  | blankLine before after hgap hending hbefore =>
    rcases List.eq_nil_or_concat' before with rfl | ⟨init, c, rfl⟩
    · exact content_blankLine hgap hending after
    · have hc : isLineBoundary c := hbefore c List.getLast?_concat
      rw [List.append_assoc, List.append_assoc, List.singleton_append, List.singleton_append,
        content_append_cons hc, content_append_cons hc, content_blankLine hgap hending]
  | trailing before after hgap hafter =>
    cases after with
    | nil => rw [List.append_nil, List.append_nil, content_append_blanks hgap]
    | cons c after =>
      have hc : isLineBoundary c := hafter c rfl
      rw [← List.append_assoc, content_append_cons hc, content_append_cons hc,
        content_append_blanks hgap]

/-- What a text says survives changes of its layout, made or taken back, in any number. -/
theorem content_of_eqvGen (h : Relation.EqvGen Relaid s t) : content t = content s := by
  induction h with
  | rel _ _ h => exact content_relaid h
  | refl _ => rfl
  | symm _ _ _ ih => exact ih.symm
  | trans _ _ _ _ _ ih ih' => exact ih'.trans ih

end DependencyAudit.Text
