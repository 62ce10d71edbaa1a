import DependencyAudit.Proofs.Range.Gluing
import DependencyAudit.Proofs.Range.Terms

/-!
# What ranges denote

Every range of the grammar, however it is written, is read, and it admits what it denotes. Gluing
makes one word of each term in writing and leaves the gaps between terms, so the words of a text in
writing are those of its terms, by induction on the terms.
-/

namespace DependencyAudit.Range

open Text Version

namespace Grammar

/-- Text that gluing passes unchanged, with no operator remembered at its end. -/
structure Closed (s : List Char) : Prop where
  not_blank : ∀ c ∈ s, ¬ isBlank c
  ends : ∃ init last, s = init ++ [last] ∧ ¬ isOperator last

theorem Closed.ne_nil {s : List Char} (h : Closed s) : s ≠ [] := by
  obtain ⟨init, last, rfl, -⟩ := h.ends
  exact List.append_ne_nil_of_right_ne_nil init (List.cons_ne_nil last [])

theorem Closed.glue {s : List Char} (h : Closed s) (b : Bool) : glue b s = s :=
  glue_of_none_blank b h.not_blank

theorem Closed.behindOperator {s : List Char} (h : Closed s) (b : Bool) :
    behindOperator b s = false := by
  have hnone := h.not_blank
  obtain ⟨init, last, rfl, hlast⟩ := h.ends
  rw [behindOperator_concat b init (hnone last (by simp)), Bool.eq_false_iff]
  exact hlast

theorem Closed.words_eq {s : List Char} (h : Closed s) : words s = [s] :=
  words_of_none_blank h.ne_nil h.not_blank

theorem Closed.of_getLast? {s : List Char} (hne : s ≠ []) (hblank : ∀ c ∈ s, ¬ isBlank c)
    (hlast : ∀ c ∈ s.getLast?, ¬ isOperator c) : Closed s := by
  refine ⟨hblank, s.dropLast, s.getLast hne, ?_, ?_⟩
  · exact (List.dropLast_append_getLast hne).symm
  · exact hlast _ (List.getLast?_eq_some_getLast hne)

theorem Closed.of_plain {s : List Char} (hne : s ≠ [])
    (h : ∀ c ∈ s, ¬ isBlank c ∧ ¬ isOperator c) : Closed s :=
  .of_getLast? hne (fun c hc => (h c hc).1) fun c hc => (h c (List.mem_of_getLast? hc)).2

/-- A text that gluing makes a word of is the first word before a gap. -/
theorem words_glue_gap {t w gap : List Char} (hw : Closed w) (hglue : glue false t = w)
    (hbehind : behindOperator false t = false) (hgap : AllBlank gap) (hne : gap ≠ [])
    (s : List Char) : words (glue false (t ++ (gap ++ s))) = w :: words (glue false s) := by
  rw [glue_append, hglue, hbehind, glue_append, glue_blanks false hgap,
    behindOperator_blanks false hgap, if_neg Bool.false_ne_true, words_append_gap hgap hne,
    hw.words_eq, List.singleton_append]

theorem plain_of_all {s : List Char} (h : s.all fun c => ! isBlank c && ! isOperator c) :
    ∀ c ∈ s, ¬ isBlank c ∧ ¬ isOperator c := by
  simpa using h

theorem VersionToken.closed (t : VersionToken) : Closed t.text := by
  have hne : t.text ≠ [] := by
    obtain ⟨c, s, ht, -⟩ := t.exists_cons
    rw [ht]
    exact List.cons_ne_nil c s
  exact .of_getLast? hne t.not_blank t.not_operator

theorem plain_of_isNumeral {n : List Char} (h : isNumeral n) :
    ∀ c ∈ n, ¬ isBlank c ∧ ¬ isOperator c := by
  intro c hc
  have hdigit := ((isNumeral_iff n).1 h).2 c hc
  exact ⟨not_isBlank_of_isDigit hdigit, not_isOperator_of_isDigit hdigit⟩

theorem plain_fillParts (fill : List Wildcard) :
    ∀ part ∈ Term.fillParts fill, ∀ c ∈ part, ¬ isBlank c ∧ ¬ isOperator c := by
  intro part hpart c hc
  obtain ⟨w, -, rfl⟩ := List.mem_map.1 hpart
  rw [List.mem_singleton.1 hc]
  cases w <;> decide

theorem closed_dotted {n : List Char} (hn : isNumeral n) {rest : List (List Char)}
    (hrest : ∀ part ∈ rest, ∀ c ∈ part, ¬ isBlank c ∧ ¬ isOperator c) :
    Closed (Term.dotted n rest) := by
  apply Closed.of_plain
  · exact List.append_ne_nil_of_left_ne_nil ((isNumeral_iff _).1 hn).1 _
  · intro c hc
    rcases List.mem_append.1 hc with hc | hc
    · exact plain_of_isNumeral hn c hc
    · obtain ⟨part, hpart, hc⟩ := List.mem_flatMap.1 hc
      rcases List.mem_cons.1 hc with rfl | hc
      · decide
      · exact hrest part hpart c hc

namespace Term

theorem closed_operand (t : Term) : Closed t.operand := by
  cases t with
  | wildcard w =>
    apply Closed.of_plain (List.cons_ne_nil _ _)
    intro c hc
    rw [List.mem_singleton.1 hc]
    cases w <;> decide
  | major n fill h => exact closed_dotted n.isNumeral_digits (plain_fillParts fill)
  | minor n m fill h =>
    exact closed_dotted n.isNumeral_digits
      (List.forall_mem_cons.2 ⟨plain_of_isNumeral m.isNumeral_digits, plain_fillParts fill⟩)
  | caret t => exact t.closed
  | tilde t => exact t.closed
  | comparison comparator t => exact t.closed
  | bare t => exact t.closed

theorem isOperator_comparatorText (comparator : Comparator) :
    ∀ c ∈ comparatorText comparator, isOperator c := by
  rw [← List.all_eq_true]
  cases comparator <;> rfl

theorem not_blank_operator (t : Term) : ∀ c ∈ t.operator, ¬ isBlank c := by
  cases t with
  | comparison comparator t =>
    exact fun c hc => not_isBlank_of_isOperator (isOperator_comparatorText comparator c hc)
  | caret t => exact List.forall_mem_singleton.2 (by decide)
  | tilde t => exact List.forall_mem_singleton.2 (by decide)
  | _ => exact fun c hc => absurd hc List.not_mem_nil

theorem behindOperator_operator (t : Term) (h : t.operator ≠ []) :
    behindOperator false t.operator = true := by
  cases t with
  | comparison comparator t => cases comparator <;> rfl
  | caret t => rfl
  | tilde t => rfl
  | _ => exact absurd rfl h

theorem closed_word (t : Term) : Closed t.word := by
  obtain ⟨init, last, hoperand, hlast⟩ := t.closed_operand.ends
  refine ⟨?_, t.operator ++ init, last, ?_, hlast⟩
  · intro c hc
    rcases List.mem_append.1 hc with hc | hc
    · exact t.not_blank_operator c hc
    · exact t.closed_operand.not_blank c hc
  · rw [word, hoperand, List.append_assoc]

/-- The blanks behind the operator are dropped. -/
theorem glue_written {t : Term} {s : List Char} (h : t.Written s) : glue false s = t.word := by
  obtain ⟨hgap, hoperator⟩ := h
  rename_i gap
  have hdropped : glue (behindOperator false t.operator) gap = [] := by
    by_cases hne : t.operator = []
    · rw [hoperator hne]
      rfl
    · rw [t.behindOperator_operator hne, glue_blanks true hgap, if_pos rfl]
  rw [glue_append, glue_of_none_blank false t.not_blank_operator, glue_append, hdropped,
    t.closed_operand.glue, word, List.nil_append]

theorem behindOperator_written {t : Term} {s : List Char} (h : t.Written s) :
    behindOperator false s = false := by
  obtain ⟨hgap, hoperator⟩ := h
  rw [behindOperator_append, behindOperator_append]
  exact t.closed_operand.behindOperator _

end Term

/-- The words of terms in writing, by induction on the terms. -/
theorem words_glue_termsWritten {ts : List Term} {s : List Char} (h : TermsWritten ts s) :
    words (glue false s) = ts.map Term.word := by
  induction h with
  | one h =>
    rw [Term.glue_written h, (Term.closed_word _).words_eq]
    rfl
  | cons h hgap hne hts ih =>
    rw [words_glue_gap (Term.closed_word _) (Term.glue_written h) (Term.behindOperator_written h)
      hgap hne, ih]
    rfl

theorem words_glue_span (low high : VersionToken) {gap gap' : List Char} (hgap : AllBlank gap)
    (hne : gap ≠ []) (hgap' : AllBlank gap') (hne' : gap' ≠ []) :
    words (glue false (low.text ++ (gap ++ (['-'] ++ (gap' ++ high.text))))) =
      [low.text, ['-'], high.text] := by
  have hdash : Closed ['-'] := Closed.of_plain (List.cons_ne_nil _ _) (plain_of_all rfl)
  rw [words_glue_gap low.closed (low.closed.glue false) (low.closed.behindOperator false) hgap hne,
    words_glue_gap hdash (hdash.glue false) (hdash.behindOperator false) hgap' hne',
    high.closed.glue, high.closed.words_eq]

/-- The range that an expression is read as. -/
def Expression.reading : Expression → Range
  | empty => .all [.any]
  | span low high => .between low.version (String.ofList high.text)
  | terms first rest => .all ((first :: rest).map Term.clause)

theorem ofWords_of_ne_span {ws : List (List Char)} (hne : ws ≠ [])
    (hspan : ∀ low high, ws ≠ [low, ['-'], high]) : ofWords ws = .all <$> ws.mapM Clause.parse := by
  unfold ofWords
  split
  · contradiction
  · exact absurd rfl (hspan _ _)
  · rfl

theorem ofWords_of_not_dash {w : List Char} {ws : List (List Char)} (h : ∀ w' ∈ ws, w' ≠ ['-']) :
    ofWords (w :: ws) = .all <$> (w :: ws).mapM Clause.parse := by
  refine ofWords_of_ne_span (List.cons_ne_nil w ws) fun low high heq => ?_
  exact h ['-'] (by rw [(List.cons.inj heq).2]; exact List.mem_cons_self) rfl

/-- No term is a lone dash: that word is not read as a clause. -/
theorem Term.word_ne_dash (t : Term) : t.word ≠ ['-'] := by
  intro hdash
  have hread := t.parse_word
  have hfail : Clause.parse ['-'] = .error (.malformed "-") := rfl
  rw [hdash, hfail] at hread
  contradiction

theorem ofWords_terms (first : Term) (rest : List Term) :
    ofWords ((first :: rest).map Term.word) = .ok (.all ((first :: rest).map Term.clause)) := by
  have hdash : ∀ w ∈ rest.map Term.word, w ≠ ['-'] := by
    intro w hw
    obtain ⟨t, -, rfl⟩ := List.mem_map.1 hw
    exact t.word_ne_dash
  have hread : ((first :: rest).map Term.word).mapM Clause.parse =
      .ok ((first :: rest).map Term.clause) := by
    rw [Success.mapM_eq_ok_iff, List.forall₂_map_left_iff, List.forall₂_map_right_iff,
      List.forall₂_same]
    exact fun t _ => t.parse_word
  rw [List.map_cons] at hread ⊢
  rw [ofWords_of_not_dash hdash, hread]
  rfl

theorem parse_renders {e : Expression} {text : String} (h : e.Renders text) :
    parse text = .ok e.reading := by
  obtain ⟨before, body, after, hbefore, hafter, hbody, htext⟩ := h
  unfold parse
  rw [words_normalise, htext, words_glue_ends hbefore hafter]
  cases hbody with
  | empty => rfl
  | span hgap hne hgap' hne' =>
    rename_i low high gap gap'
    rw [words_glue_span low high hgap hne hgap' hne', ofWords, low.bound_text]
    rfl
  | terms h =>
    rw [words_glue_termsWritten h]
    exact ofWords_terms _ _

/-- The reading of an expression admits what the expression admits. -/
theorem admits_reading (e : Expression) (v : Version) :
    ∃ admitted, e.reading.admits (some v) = .ok admitted ∧ (admitted ↔ e.Admits v) := by
  cases e with
  | empty => exact ⟨_, rfl, by simp [Clause.admits, Expression.Admits]⟩
  | span low high =>
    have hlow := Term.holds_iff .atLeast v low.version
    have hhigh := Term.holds_iff .atMost v high.version
    by_cases hreached : Comparator.atLeast.holds v low.version = true
    · refine ⟨Comparator.atMost.holds v high.version, ?_, ?_⟩
      · rw [Expression.reading, Range.admits, if_pos hreached, high.bound_text]
        rfl
      · exact hhigh.trans (iff_and_self.2 fun _ => hlow.1 hreached)
    · refine ⟨false, ?_, ?_⟩
      · rw [Expression.reading, Range.admits, if_neg hreached]
      · exact ⟨fun h => absurd h Bool.false_ne_true, fun h => absurd (hlow.2 h.1) hreached⟩
  | terms first rest =>
    refine ⟨_, rfl, ?_⟩
    rw [List.all_map, List.all_eq_true]
    exact forall₂_congr fun t _ => t.admits_clause v

/-- A range in writing is evaluated on every candidate whose numerals can be read: it admits the
versions that its expression admits, and no text that is not a version. -/
theorem evaluate_renders (e : Expression) (version range : String)
    (hversion : ¬ HasLongNumeral (trimString version)) (hrange : e.Renders range) :
    ∃ admitted, evaluate version range = .ok admitted ∧
      (admitted ↔ ∃ v, Version.parse (trimString version) = .ok v ∧ e.Admits v) := by
  unfold evaluate candidate
  rw [parse_renders hrange]
  cases hparse : Version.parse (trimString version) with
  | ok v =>
    obtain ⟨admitted, hadmits, hmeaning⟩ := admits_reading e v
    refine ⟨admitted, hadmits, hmeaning.trans ?_⟩
    constructor
    · exact fun h => ⟨v, rfl, h⟩
    · rintro ⟨w, hw, h⟩
      rwa [Except.ok.inj hw]
  | error failure =>
    cases failure with
    | malformed text =>
      refine ⟨false, ?_, ?_⟩
      · cases e <;> rfl
      · exact ⟨fun h => absurd h Bool.false_ne_true, fun ⟨_, hw, _⟩ => nomatch hw⟩
    | longNumeral n => exact absurd hparse (Version.parse_ne_longNumeral hversion n)

/-- A version token of plain characters. -/
def plainToken (text : String) (v : Version) (hparse : Version.parse (String.ofList text.toList) = .ok v)
    (h : text.toList.all fun c => ! isBlank c && ! isOperator c) : VersionToken :=
  ⟨text.toList, v, hparse, fun c hc => (plain_of_all h c hc).1,
    fun c hc => (plain_of_all h c (List.mem_of_getLast? hc)).2⟩

def prereleaseToken : VersionToken := plainToken "1.2.3-rc.1" ⟨1, 2, 3, some "rc.1"⟩ rfl rfl

def nextMajorToken : VersionToken := plainToken "2.0.0" (release 2 0 0) rfl rfl

def caretBelow : Expression := .terms (.caret prereleaseToken) [.comparison .below nextMajorToken]

theorem renders_caretBelow : caretBelow.Renders "\t^ 1.2.3-rc.1  < \n2.0.0 " := by
  have htab : AllBlank ['\t'] := List.forall_mem_singleton.2 rfl
  have hspace : AllBlank [' '] := List.forall_mem_singleton.2 rfl
  have hspaces : AllBlank [' ', ' '] := List.forall_mem_cons.2 ⟨rfl, hspace⟩
  have hlines : AllBlank [' ', '\n'] := List.forall_mem_cons.2 ⟨rfl, List.forall_mem_singleton.2 rfl⟩
  have hcaret : (Term.caret prereleaseToken).Written "^ 1.2.3-rc.1".toList :=
    .loose hspace fun h => nomatch h
  have hbelow : (Term.comparison .below nextMajorToken).Written "< \n2.0.0".toList :=
    .loose hlines fun h => nomatch h
  have hbody : caretBelow.Written "^ 1.2.3-rc.1  < \n2.0.0".toList :=
    .terms (.cons hcaret hspaces (List.cons_ne_nil _ _) (.one hbelow))
  exact ⟨_, _, _, htab, hspace, hbody, rfl⟩

theorem evaluate_caretBelow :
    ¬ HasLongNumeral (trimString " 1.4.0") ∧
      caretBelow.Renders "\t^ 1.2.3-rc.1  < \n2.0.0 " ∧
      ∃ admitted, evaluate " 1.4.0" "\t^ 1.2.3-rc.1  < \n2.0.0 " = .ok admitted ∧
        (admitted ↔ ∃ v, Version.parse (trimString " 1.4.0") = .ok v ∧ caretBelow.Admits v) := by
  have hshort : ¬ HasLongNumeral (trimString " 1.4.0") :=
    not_hasLongNumeral (.of_length_le (by decide +kernel))
  exact ⟨hshort, renders_caretBelow, evaluate_renders _ _ _ hshort renders_caretBelow⟩

end Grammar
end DependencyAudit.Range
