import DependencyAudit.KnownBad.Sheet
import DependencyAudit.Proofs.Text.Pieces
import DependencyAudit.Proofs.Text.Words

/-!
# Version cells

A cell lists versions as alternatives, each with a `=` in front and bars between them. Splitting
the cell gives the versions back, as long as none of them holds the bars itself. A version may
even begin with `=`, since only the first `=` is taken off.
-/

namespace DependencyAudit.KnownBad

open Text

abbrev bars : List Char := ['|', '|']

variable {s t : List Char}

theorem bars_infix_of_cons {c : Char} (hc : c ≠ '|') (h : bars <:+: c :: s) : bars <:+: s := by
  rcases List.infix_cons_iff.1 h with hstart | hlater
  · exact absurd (List.cons_prefix_cons.1 hstart).1.symm hc
  · exact hlater

/-- No occurrence of the bars reaches across another character. -/
theorem bars_infix_append_cons {c : Char} (hc : c ≠ '|') (h : bars <:+: s ++ c :: t) :
    bars <:+: s ∨ bars <:+: t := by
  rcases infix_append_cases h with hin | hin | ⟨u, v, huv, hu, hv⟩
  · exact .inl hin
  · exact .inr (bars_infix_of_cons hc hin)
  · rcases List.prefix_cons_iff.1 hv with rfl | ⟨v, rfl, -⟩
    · rw [List.append_nil] at huv
      exact .inl (huv ▸ hu.isInfix)
    · have hmem : c ∈ bars := huv ▸ List.mem_append_right u List.mem_cons_self
      exact absurd (by simpa using hmem) hc

theorem not_bars_infix_blanks_append {gap : List Char} (hgap : AllBlank gap) (h : ¬ bars <:+: s) :
    ¬ bars <:+: gap ++ s := by
  induction gap with
  | nil => exact h
  | cons c gap ih =>
    obtain ⟨hc, hgap⟩ := hgap.of_cons
    have hne : c ≠ '|' := by
      rintro rfl
      contradiction
    exact fun hin => ih hgap (bars_infix_of_cons hne hin)

theorem splitVersions_append (h : ¬ bars <:+: s ++ ['|']) (t : List Char) :
    splitVersions (s ++ (bars ++ t)) = splitVersions s ++ splitVersions t := by
  have hs : ¬ bars <:+: s := fun hin => h (hin.trans (List.prefix_append _ _).isInfix)
  have hpieces : pieces bars (s ++ (bars ++ t)) = pieces bars s ++ pieces bars t := by
    rw [pieces, piecesFrom_append (List.cons_ne_nil _ _) h, pieces_eq_singleton hs,
      List.singleton_append]
    rfl
  rw [splitVersions, hpieces, List.map_append, List.filter_append, ← splitVersions,
    ← splitVersions]

/-- A version that may stand in a cell. -/
structure CellVersion where
  text : String
  ne_empty : text ≠ ""
  trimmed : trimString text = text
  not_bars : ¬ bars <:+: text.toList

/-- The texts of the versions, each behind a `=`, with bars between them. -/
def versionCell (versions : List CellVersion) : String :=
  " || ".intercalate (versions.map fun v => "= " ++ v.text)

def CellVersion.marked (v : CellVersion) : List Char := '=' :: ' ' :: v.text.toList

theorem toList_versionCell (versions : List CellVersion) :
    (versionCell versions).toList =
      [' ', '|', '|', ' '].intercalate (versions.map CellVersion.marked) := by
  rw [versionCell, String.toList_intercalate, List.map_map]
  congr 2
  funext v
  exact String.toList_append

namespace CellVersion

variable (v : CellVersion)

theorem trim_text : trim v.text.toList = v.text.toList := (trimString_eq_self_iff _).1 v.trimmed

theorem text_ne_nil : v.text.toList ≠ [] := fun h => v.ne_empty (String.toList_eq_nil_iff.1 h)

theorem trim_marked : trim v.marked = v.marked := by
  rw [trim_eq_self_iff]
  constructor
  · exact forall_head?_cons (by decide) _
  · rw [marked, List.getLast?_cons_cons, ← List.singleton_append,
      List.getLast?_append_of_ne_nil _ v.text_ne_nil]
    exact ((trim_eq_self_iff _).1 v.trim_text).2

theorem trimLeft_text : trimLeft v.text.toList = v.text.toList :=
  (trimLeft_eq_self_iff _).2 ((trim_eq_self_iff _).1 v.trim_text).1

theorem not_bars_infix_marked : ¬ bars <:+: v.marked := by
  have hspace := not_bars_infix_blanks_append allBlank_space v.not_bars
  exact fun hin => hspace (bars_infix_of_cons (by decide) hin)

theorem not_bars_infix_marked_bar : ¬ bars <:+: (v.marked ++ [' ']) ++ ['|'] := by
  rw [List.append_assoc]
  intro hin
  rcases bars_infix_append_cons (by decide) hin with hin | hin
  · exact v.not_bars_infix_marked hin
  · exact absurd hin.length_le (by decide)

/-- Blanks around an alternative do not count. -/
theorem splitVersions_marked {before after : List Char} (hbefore : AllBlank before)
    (hafter : AllBlank after) (h : ¬ bars <:+: before ++ (v.marked ++ after)) :
    splitVersions (before ++ (v.marked ++ after)) = [v.text.toList] := by
  have htrim : trim (before ++ (v.marked ++ after)) = '=' :: ' ' :: v.text.toList := by
    rw [trim_blanks_append hbefore, trim_append_blanks hafter, v.trim_marked, marked]
  have hversion : trimLeft (' ' :: v.text.toList) = v.text.toList := by
    rw [← List.singleton_append, trimLeft_blanks_append allBlank_space, v.trimLeft_text]
  rw [splitVersions, pieces_eq_singleton h, List.map_singleton, htrim]
  simp [hversion, v.ne_empty]

end CellVersion

theorem versionCell_ne_nil_trim {versions : List CellVersion} (hne : versions ≠ []) :
    (versionCell versions).toList ≠ [] ∧
      trim (versionCell versions).toList = (versionCell versions).toList := by
  rw [toList_versionCell]
  induction versions with
  | nil => contradiction
  | cons v versions ih =>
    have hmarked : v.marked ≠ [] := List.cons_ne_nil _ _
    cases versions with
    | nil =>
      rw [List.map_singleton, List.intercalate_singleton]
      exact ⟨hmarked, v.trim_marked⟩
    | cons w versions =>
      obtain ⟨hmore, htrim⟩ := ih (List.cons_ne_nil _ _)
      rw [List.map_cons, List.map_cons, List.intercalate_cons_cons, ← List.map_cons]
      exact ⟨List.append_ne_nil_of_right_ne_nil _ hmore,
        trim_append_append v.trim_marked htrim hmarked hmore _⟩

theorem splitVersions_blanks_intercalate {gap : List Char} (hgap : AllBlank gap)
    (versions : List CellVersion) (hne : versions ≠ []) :
    splitVersions (gap ++ [' ', '|', '|', ' '].intercalate (versions.map CellVersion.marked)) =
      versions.map (·.text.toList) := by
  -- The alternatives after the first have a blank in front, so the gap varies.
  induction versions generalizing gap with
  | nil => contradiction
  | cons v versions ih =>
    cases versions with
    | nil =>
      have hlast := v.splitVersions_marked hgap allBlank_nil
      rw [List.append_nil] at hlast
      rw [List.map_singleton, List.intercalate_singleton, List.map_singleton]
      exact hlast (not_bars_infix_blanks_append hgap v.not_bars_infix_marked)
    | cons w versions =>
      have hbars := not_bars_infix_blanks_append hgap v.not_bars_infix_marked_bar
      rw [← List.append_assoc] at hbars
      have hfirst := v.splitVersions_marked hgap allBlank_space
        fun hin => hbars (hin.trans (List.prefix_append _ _).isInfix)
      have hparts : gap ++ [' ', '|', '|', ' '].intercalate
            ((v :: w :: versions).map CellVersion.marked) =
          (gap ++ (v.marked ++ [' '])) ++ (bars ++ ([' '] ++
            [' ', '|', '|', ' '].intercalate ((w :: versions).map CellVersion.marked))) := by
        simp only [List.map_cons, List.intercalate_cons_cons, List.append_assoc, List.cons_append,
          List.nil_append]
      rw [hparts, splitVersions_append hbars, hfirst, ih allBlank_space (List.cons_ne_nil _ _),
        List.singleton_append]
      rfl

theorem splitVersions_versionCell {versions : List CellVersion} (hne : versions ≠ []) :
    splitVersions (versionCell versions).toList = versions.map (·.text.toList) := by
  rw [toList_versionCell]
  exact splitVersions_blanks_intercalate allBlank_nil versions hne

end DependencyAudit.KnownBad
