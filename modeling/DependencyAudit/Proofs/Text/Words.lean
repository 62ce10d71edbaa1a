import Mathlib.Data.List.Infix
import Mathlib.Data.List.TakeWhile
import DependencyAudit.Text.Blank

/-!
# Words between blanks

Blanks at the ends of a text change none of its words, and any gap of blanks parts two words.
Trimming takes blanks off the ends and nothing else.
-/

namespace DependencyAudit.Text

/-- A text of blanks only, possibly empty. -/
def AllBlank (gap : List Char) : Prop := ∀ c ∈ gap, isBlank c

theorem AllBlank.of_cons {c : Char} {gap : List Char} (h : AllBlank (c :: gap)) :
    isBlank c ∧ AllBlank gap := List.forall_mem_cons.1 h

theorem AllBlank.sublist {gap gap' : List Char} (h : AllBlank gap) (hsub : gap'.Sublist gap) :
    AllBlank gap' := fun c hc => h c (hsub.subset hc)

theorem AllBlank.filter_eq_nil {gap : List Char} (h : AllBlank gap) :
    gap.filter (! isBlank ·) = [] := by
  rw [List.filter_eq_nil_iff]
  intro c hc
  simp [h c hc]

theorem allBlank_nil : AllBlank [] := nofun

theorem allBlank_space : AllBlank [' '] := List.forall_mem_singleton.2 rfl

theorem words_blanks_append {gap : List Char} (h : AllBlank gap) (s : List Char) :
    words (gap ++ s) = words s := by
  induction gap with
  | nil => rfl
  | cons c gap ih =>
    obtain ⟨hc, hgap⟩ := h.of_cons
    rw [List.cons_append, words_cons_of_isBlank hc, ih hgap]

theorem words_append_gap {gap : List Char} (h : AllBlank gap) (hne : gap ≠ []) (s t : List Char) :
    words (s ++ (gap ++ t)) = words s ++ words t := by
  cases gap with
  | nil => contradiction
  | cons c gap =>
    obtain ⟨hc, hgap⟩ := h.of_cons
    rw [List.cons_append, words_append_cons hc, words_blanks_append hgap]

theorem words_append_blanks {gap : List Char} (h : AllBlank gap) (s : List Char) :
    words (s ++ gap) = words s := by
  by_cases hne : gap = []
  · rw [hne, List.append_nil]
  · have hgap := words_append_gap h hne s []
    rwa [List.append_nil, words_nil, List.append_nil] at hgap

theorem allBlank_takeWhile (s : List Char) : AllBlank (s.takeWhile isBlank) :=
  fun _ hc => List.mem_takeWhile_imp hc

theorem takeWhile_append_trimLeft (s : List Char) : s.takeWhile isBlank ++ trimLeft s = s :=
  List.takeWhile_append_dropWhile

theorem exists_trimRight_append (s : List Char) :
    ∃ after, AllBlank after ∧ s = trimRight s ++ after := by
  refine ⟨(s.reverse.takeWhile isBlank).reverse, ?_, ?_⟩
  · exact fun c hc => allBlank_takeWhile _ c (List.mem_reverse.1 hc)
  · unfold trimRight
    rw [← List.reverse_append, List.takeWhile_append_dropWhile, List.reverse_reverse]

/-- Trimming takes blanks off the ends. -/
theorem exists_append_trim (s : List Char) :
    ∃ before after, AllBlank before ∧ AllBlank after ∧ s = before ++ (trim s ++ after) := by
  obtain ⟨after, hafter, hright⟩ := exists_trimRight_append (trimLeft s)
  refine ⟨s.takeWhile isBlank, after, allBlank_takeWhile s, hafter, ?_⟩
  rw [trim, ← hright, takeWhile_append_trimLeft]

theorem trim_isInfix (s : List Char) : trim s <:+: s := by
  obtain ⟨before, after, -, -, hs⟩ := exists_append_trim s
  exact ⟨before, after, by rw [List.append_assoc, ← hs]⟩

theorem trim_of_none_blank {s : List Char} (h : ∀ c ∈ s, ¬ isBlank c) : trim s = s := by
  have hdrop : ∀ t : List Char, (∀ c ∈ t, ¬ isBlank c) → t.dropWhile isBlank = t := by
    intro t ht
    cases t with
    | nil => rfl
    | cons c t => exact List.dropWhile_cons_of_neg (ht c List.mem_cons_self)
  unfold trim trimLeft trimRight
  rw [hdrop s h, hdrop s.reverse fun c hc => h c (List.mem_reverse.1 hc), List.reverse_reverse]

theorem trimLeft_blanks_append {gap : List Char} (h : AllBlank gap) (s : List Char) :
    trimLeft (gap ++ s) = trimLeft s := List.dropWhile_append_of_pos h

theorem trimRight_append_blanks {gap : List Char} (h : AllBlank gap) (s : List Char) :
    trimRight (s ++ gap) = trimRight s := by
  have hgap : ∀ c ∈ gap.reverse, isBlank c := fun c hc => h c (List.mem_reverse.1 hc)
  rw [trimRight, List.reverse_append, List.dropWhile_append_of_pos hgap, trimRight]

theorem trim_append_blanks {gap : List Char} (h : AllBlank gap) (s : List Char) :
    trim (s ++ gap) = trim s := by
  unfold trim trimLeft
  rw [List.dropWhile_append]
  split
  · rename_i hs
    have hgap : gap.dropWhile isBlank = [] := List.dropWhile_eq_nil_iff.2 h
    rw [hgap, List.isEmpty_iff.1 hs]
  · exact trimRight_append_blanks h _

theorem trim_blanks_append {gap : List Char} (h : AllBlank gap) (s : List Char) :
    trim (gap ++ s) = trim s := by
  unfold trim
  rw [trimLeft_blanks_append h]

theorem trimLeft_eq_self_iff (s : List Char) :
    trimLeft s = s ↔ ∀ c ∈ s.head?, ¬ isBlank c := by
  cases s with
  | nil => simp [trimLeft]
  | cons c s => simp [trimLeft, List.dropWhile_eq_self_iff]

theorem trimRight_eq_self_iff (s : List Char) :
    trimRight s = s ↔ ∀ c ∈ s.getLast?, ¬ isBlank c := by
  have hreverse : trimRight s = s ↔ trimLeft s.reverse = s.reverse := by
    rw [trimRight, trimLeft, List.reverse_eq_iff]
  rw [hreverse, trimLeft_eq_self_iff, List.head?_reverse]

/-- A text without blanks at its ends. -/
theorem trim_eq_self_iff (s : List Char) :
    trim s = s ↔ (∀ c ∈ s.head?, ¬ isBlank c) ∧ ∀ c ∈ s.getLast?, ¬ isBlank c := by
  rw [← trimLeft_eq_self_iff, ← trimRight_eq_self_iff]
  constructor
  · intro h
    have hprefix : s <+: trimLeft s := by
      have hsuffix := List.dropWhile_suffix isBlank (l := (trimLeft s).reverse)
      have hright := List.reverse_prefix.2 hsuffix
      rwa [List.reverse_reverse, ← trimRight, ← trim, h] at hright
    have hleft : trimLeft s = s :=
      (List.dropWhile_suffix isBlank).eq_of_length_le hprefix.length_le
    exact ⟨hleft, by rwa [trim, hleft] at h⟩
  · rintro ⟨hleft, hright⟩
    rw [trim, hleft, hright]

theorem trim_trim (s : List Char) : trim (trim s) = trim s := by
  obtain ⟨before, after, hbefore, hafter, hs⟩ := exists_append_trim s
  conv_rhs => rw [hs, trim_blanks_append hbefore, trim_append_blanks hafter]

/-- Behind a first character that stays, only blanks in front can be trimmed. -/
theorem trim_trimLeft_of_trim_cons {c : Char} {s : List Char} (h : trim (c :: s) = c :: s) :
    trim (trimLeft s) = trimLeft s := by
  rw [trim_eq_self_iff] at h ⊢
  have hleft : trimLeft (trimLeft s) = trimLeft s := by
    conv_rhs => rw [← takeWhile_append_trimLeft s, trimLeft_blanks_append (allBlank_takeWhile s)]
  refine ⟨(trimLeft_eq_self_iff _).1 hleft, fun d hd => h.2 d ?_⟩
  rw [← takeWhile_append_trimLeft s, ← List.cons_append, List.getLast?_append, hd, Option.some_or]
  rfl

theorem trim_append_append {s t : List Char} (hs : trim s = s) (ht : trim t = t) (hsne : s ≠ [])
    (htne : t ≠ []) (between : List Char) : trim (s ++ between ++ t) = s ++ between ++ t := by
  rw [trim_eq_self_iff, List.append_assoc, List.head?_append_of_ne_nil _ hsne, ← List.append_assoc,
    List.getLast?_append_of_ne_nil _ htne]
  exact ⟨((trim_eq_self_iff s).1 hs).1, ((trim_eq_self_iff t).1 ht).2⟩

theorem trimString_eq_self_iff (s : String) : trimString s = s ↔ trim s.toList = s.toList := by
  rw [trimString, ← String.toList_inj, String.toList_ofList]

/-- A mark that may be left out. -/
theorem mem_mark_iff {c : Char} {mark : List Char} :
    mark ∈ [[], [c]] ↔ mark = [] ∨ mark = [c] := by
  rw [List.mem_cons, List.mem_singleton]

theorem forall_head?_cons {P : Char → Prop} {c : Char} (h : P c) (s : List Char) :
    ∀ d ∈ (c :: s).head?, P d := by
  intro d hd
  rwa [← Option.some.inj hd]

/-- A run ends at the first character that does not belong to it. -/
theorem takeWhile_run {p : Char → Bool} {run rest : List Char} (h : ∀ c ∈ run, p c)
    (hrest : ∀ c ∈ rest.head?, ¬ p c) : (run ++ rest).takeWhile p = run := by
  have hstop : rest.takeWhile p = [] := by
    cases rest with
    | nil => rfl
    | cons c rest => exact List.takeWhile_cons_of_neg (hrest c rfl)
  rw [List.takeWhile_append_of_pos h, hstop, List.append_nil]

theorem dropWhile_run {p : Char → Bool} {run rest : List Char} (h : ∀ c ∈ run, p c)
    (hrest : ∀ c ∈ rest.head?, ¬ p c) : (run ++ rest).dropWhile p = rest := by
  rw [List.dropWhile_append_of_pos h]
  cases rest with
  | nil => rfl
  | cons c rest => exact List.dropWhile_cons_of_neg (hrest c rfl)

theorem trimLeft_run {gap s : List Char} (h : AllBlank gap) (hs : ∀ c ∈ s.head?, ¬ isBlank c) :
    trimLeft (gap ++ s) = s := dropWhile_run h hs

theorem takeWhile_isBlank_ne_nil {s : List Char} (h : s.head?.any isBlank) : s.takeWhile isBlank ≠ [] := by
  cases s with
  | nil => contradiction
  | cons c s =>
    have hc : isBlank c := h
    rw [List.takeWhile_cons_of_pos hc]
    exact List.cons_ne_nil _ _

theorem trimRight_of_allBlank {gap : List Char} (h : AllBlank gap) : trimRight gap = [] :=
  trimRight_append_blanks (s := []) h

theorem trimRight_trimRight (s : List Char) : trimRight (trimRight s) = trimRight s := by
  obtain ⟨after, hafter, hs⟩ := exists_trimRight_append s
  conv_rhs => rw [hs, trimRight_append_blanks hafter]

/-- What stands before a character that is not blank is kept. -/
theorem trimRight_append_cons {c : Char} (h : ¬ isBlank c) (s t : List Char) :
    trimRight (s ++ c :: t) = s ++ c :: trimRight t := by
  have hreverse : (s ++ c :: t).reverse = t.reverse ++ c :: s.reverse := by simp
  have hdrop : (t.reverse ++ c :: s.reverse).dropWhile isBlank =
      t.reverse.dropWhile isBlank ++ c :: s.reverse := by
    rw [List.dropWhile_append]
    split
    · rename_i hempty
      rw [List.isEmpty_iff.1 hempty, List.dropWhile_cons_of_neg h, List.nil_append]
    · rfl
  rw [trimRight, hreverse, hdrop, List.reverse_append, List.reverse_cons, List.reverse_reverse,
    List.append_assoc]
  rfl

theorem not_separates_of_mem_cut {separates : Char → Bool} {s part : List Char}
    (h : part ∈ cut separates s) : ∀ c ∈ part, ¬ separates c := by
  induction s generalizing part with
  | nil =>
    rw [cut_nil, List.mem_singleton] at h
    simp [h]
  | cons d s ih =>
    by_cases hd : separates d
    · rw [cut_cons_of_separates hd, List.mem_cons] at h
      rcases h with rfl | h
      · simp
      · exact ih h
    · rw [cut_cons_of_not_separates hd] at h
      cases hs : cut separates s with
      | nil => exact absurd hs (cut_ne_nil s)
      | cons first parts =>
        rw [hs, pushFront, List.mem_cons] at h
        rcases h with rfl | h
        · rw [List.forall_mem_cons]
          exact ⟨hd, ih (hs ▸ List.mem_cons_self)⟩
        · exact ih (hs ▸ List.mem_cons_of_mem _ h)

theorem exists_cut_eq_cons (separates : Char → Bool) (s : List Char) : ∃ first parts,
    cut separates s = first :: parts ∧ first <+: s ∧ ∀ part ∈ parts, part <:+: s := by
  induction s with
  | nil => exact ⟨[], [], rfl, List.prefix_rfl, fun _ h => absurd h List.not_mem_nil⟩
  | cons c s ih =>
    obtain ⟨first, parts, hcut, hfirst, hparts⟩ := ih
    have hlater : ∀ part ∈ parts, part <:+: c :: s :=
      fun part hpart => List.infix_cons (hparts part hpart)
    by_cases hc : separates c
    · refine ⟨[], first :: parts, ?_, List.nil_prefix, ?_⟩
      · rw [cut_cons_of_separates hc, hcut]
      · exact List.forall_mem_cons.2 ⟨List.infix_cons hfirst.isInfix, hlater⟩
    · refine ⟨c :: first, parts, ?_, (List.prefix_cons_inj c).2 hfirst, hlater⟩
      rw [cut_cons_of_not_separates hc, hcut]
      rfl

theorem infix_of_mem_cut {separates : Char → Bool} {s part : List Char}
    (h : part ∈ cut separates s) : part <:+: s := by
  obtain ⟨first, parts, hcut, hfirst, hparts⟩ := exists_cut_eq_cons separates s
  rw [hcut, List.mem_cons] at h
  rcases h with rfl | h
  · exact hfirst.isInfix
  · exact hparts part h

theorem exists_cut_of_prefix {separates : Char → Bool} {run s : List Char}
    (hrun : ∀ c ∈ run, ¬ separates c) (h : run <+: s) :
    ∃ first parts, cut separates s = first :: parts ∧ run <+: first := by
  induction run generalizing s with
  | nil =>
    have hne : cut separates s ≠ [] := cut_ne_nil s
    obtain ⟨first, parts, hcut⟩ := List.exists_cons_of_ne_nil hne
    exact ⟨first, parts, hcut, List.nil_prefix⟩
  | cons c run ih =>
    obtain ⟨hc, hrun⟩ := List.forall_mem_cons.1 hrun
    obtain ⟨t, rfl⟩ := h
    obtain ⟨first, parts, hcut, hfirst⟩ := ih hrun (List.prefix_append run t)
    refine ⟨c :: first, parts, ?_, (List.prefix_cons_inj c).2 hfirst⟩
    rw [List.cons_append, cut_cons_of_not_separates hc, hcut]
    rfl

/-- A run that nothing separates stays in one part. -/
theorem exists_mem_cut_of_infix {separates : Char → Bool} {run s : List Char}
    (hrun : ∀ c ∈ run, ¬ separates c) (h : run <:+: s) :
    ∃ part ∈ cut separates s, run <:+: part := by
  induction s with
  | nil => exact ⟨[], List.mem_singleton_self [], h⟩
  | cons c s ih =>
    rcases List.infix_cons_iff.1 h with hstart | hlater
    · obtain ⟨first, parts, hcut, hfirst⟩ := exists_cut_of_prefix hrun hstart
      exact ⟨first, hcut ▸ List.mem_cons_self, hfirst.isInfix⟩
    · obtain ⟨part, hpart, hin⟩ := ih hlater
      by_cases hc : separates c
      · exact ⟨part, by rw [cut_cons_of_separates hc]; exact List.mem_cons_of_mem _ hpart, hin⟩
      · rw [cut_cons_of_not_separates hc]
        cases hs : cut separates s with
        | nil => exact absurd hs (cut_ne_nil s)
        | cons first parts =>
          rw [hs] at hpart
          rcases List.mem_cons.1 hpart with rfl | hpart
          · exact ⟨c :: part, List.mem_cons_self, List.infix_cons hin⟩
          · exact ⟨part, List.mem_cons_of_mem _ hpart, hin⟩

theorem exists_mem_words_of_infix {run s : List Char} (hne : run ≠ [])
    (hrun : ∀ c ∈ run, ¬ isBlank c) (h : run <:+: s) : ∃ w ∈ words s, run <:+: w := by
  obtain ⟨w, hw, hin⟩ := exists_mem_cut_of_infix hrun h
  have hwne : w ≠ [] := by
    rintro rfl
    exact hne (List.eq_nil_of_infix_nil hin)
  exact ⟨w, List.mem_filter.2 ⟨hw, by simpa using hwne⟩, hin⟩

theorem infix_of_mem_words {s w : List Char} (h : w ∈ words s) : w <:+: s :=
  infix_of_mem_cut (List.mem_of_mem_filter h)

theorem ne_nil_of_mem_words {s w : List Char} (h : w ∈ words s) : w ≠ [] := by
  simpa using List.of_mem_filter h

theorem not_blank_of_mem_words {s w : List Char} (h : w ∈ words s) : ∀ c ∈ w, ¬ isBlank c :=
  not_separates_of_mem_cut (List.mem_of_mem_filter h)

end DependencyAudit.Text
