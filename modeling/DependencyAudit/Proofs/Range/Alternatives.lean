import DependencyAudit.Proofs.KnownBad.VersionCell
import DependencyAudit.Proofs.Range.Recognition

/-!
# Bars in ranges

Alternatives are no part of the grammar of ranges, but a tag may hold any character. So a word with
bars in it is a clause only if it is a version with the bars in its tag, perhaps behind an operator,
and a range with bars is refused unless all of its words are clauses or it is a span.
-/

namespace DependencyAudit

open Text
open KnownBad (bars bars_infix_of_cons bars_infix_append_cons)

theorem Text.not_bars_infix_of_isNumeral {s : List Char} (h : isNumeral s) : ¬ bars <:+: s := by
  intro hin
  have hbar : isDigit '|' := ((isNumeral_iff s).1 h).2 _ (hin.subset List.mem_cons_self)
  exact absurd hbar (by decide)

namespace Version

/-- The text is a version with bars in its tag. -/
def TaggedWithBars (token : List Char) : Prop :=
  ∃ v tag, parse (String.ofList token) = .ok v ∧ v.prerelease = some tag ∧ bars <:+: tag.toList

theorem Shape.WellFormed.exists_tag_of_bars {shape : Shape} (h : shape.WellFormed)
    (hin : bars <:+: shape.text) : ∃ tag, shape.prerelease = some tag ∧ bars <:+: tag := by
  have hminor : bars <:+: shape.minor ++ '.' :: (shape.patch ++ tagText shape.prerelease) :=
    (bars_infix_append_cons (by decide) hin).resolve_left (not_bars_infix_of_isNumeral h.major)
  have hpatch : bars <:+: shape.patch ++ tagText shape.prerelease :=
    (bars_infix_append_cons (by decide) hminor).resolve_left (not_bars_infix_of_isNumeral h.minor)
  cases htag : shape.prerelease with
  | none =>
    rw [htag, tagText, List.append_nil] at hpatch
    exact absurd hpatch (not_bars_infix_of_isNumeral h.patch)
  | some tag =>
    rw [htag, tagText] at hpatch
    exact ⟨tag, rfl, (bars_infix_append_cons (by decide) hpatch).resolve_left
      (not_bars_infix_of_isNumeral h.patch)⟩

theorem taggedWithBars_of_parse {token : List Char} {v : Version}
    (h : parse (String.ofList token) = .ok v) (hin : bars <:+: token) : TaggedWithBars token := by
  obtain ⟨shape, hshape, -, hv⟩ := parse_eq_ok_iff.1 h
  obtain ⟨hform, hs⟩ := shape?_eq_some_iff.1 hshape
  rw [String.toList_ofList] at hs
  have htext : bars <:+: shape.text := by
    rw [← hs]
    rcases withoutFinalNewline_eq_or token with htoken | htoken
    · rwa [← htoken]
    · rw [htoken] at hin
      exact (bars_infix_append_cons (by decide) hin).resolve_right fun hnil =>
        absurd hnil.length_le (by decide)
  obtain ⟨tag, htag, hbars⟩ := hform.exists_tag_of_bars htext
  refine ⟨v, String.ofList tag, h, ?_, ?_⟩
  · rw [hv, Shape.version, htag, Option.map_some]
  · rwa [String.toList_ofList]

end Version

namespace Clause

def IsClause (word : List Char) : Prop := ∃ clause, parse word = .ok clause

/-- What may stand before the version of a clause. -/
inductive Operator : List Char → Prop
  | none : Operator []
  | caret : Operator ['^']
  | tilde : Operator ['~']
  | comparison (comparator : Comparator) : Operator (Range.Grammar.comparatorText comparator)

variable {word : List Char}

theorem not_bars_infix_of_isWildcard (h : isWildcard word) : ¬ bars <:+: word := by
  have hword : word = ['*'] ∨ word = ['x'] ∨ word = ['X'] := by
    simpa [isWildcard, or_assoc] using h
  rcases hword with rfl | rfl | rfl <;> exact fun hin => absurd hin.length_le (by decide)

theorem isNumeral_or_isWildcard_of_partialVersion? {read : Except LongNumeral Clause}
    (h : partialVersion? word = some read) :
    ∀ part ∈ cut (· == '.') word, isNumeral part ∨ isWildcard part := by
  unfold partialVersion? at h
  split at h
  · rename_i n hcut
    simp only [hcut, List.forall_mem_cons]
    grind
  · rename_i n m hcut
    simp only [hcut, List.forall_mem_cons]
    grind
  · rename_i n m p hcut
    simp only [hcut, List.forall_mem_cons]
    grind
  · contradiction

theorem partialVersion?_of_bars (h : bars <:+: word) : partialVersion? word = none := by
  by_contra hsome
  obtain ⟨read, hread⟩ := Option.ne_none_iff_exists'.1 hsome
  have hseparate : ∀ c ∈ bars, ¬ (c == '.') = true := List.any_eq_false.1 rfl
  obtain ⟨part, hpart, hin⟩ := exists_mem_cut_of_infix hseparate h
  rcases isNumeral_or_isWildcard_of_partialVersion? hread part hpart with hn | hw
  · exact not_bars_infix_of_isNumeral hn hin
  · exact not_bars_infix_of_isWildcard hw hin

theorem parse_of_bars (h : bars <:+: word) : parse word = ofOperator word := by
  have hwild : ¬ isWildcard word := fun hw => not_bars_infix_of_isWildcard hw h
  unfold parse
  rw [if_neg hwild, partialVersion?_of_bars h]

theorem exists_operator_of_ofOperator {clause : Clause} (h : ofOperator word = .ok clause) :
    ∃ operator token v, Operator operator ∧ word = operator ++ token ∧
      Version.parse (String.ofList token) = .ok v := by
  unfold ofOperator at h
  split at h
  all_goals
    obtain ⟨v, hv, -⟩ := Success.map_eq_ok_iff.1 h
    rw [bound_eq_ok_iff] at hv
  · exact ⟨_, _, v, .caret, rfl, hv⟩
  · exact ⟨_, _, v, .tilde, rfl, hv⟩
  · exact ⟨_, _, v, .comparison .atLeast, rfl, hv⟩
  · exact ⟨_, _, v, .comparison .atMost, rfl, hv⟩
  · exact ⟨_, _, v, .comparison .above, rfl, hv⟩
  · exact ⟨_, _, v, .comparison .below, rfl, hv⟩
  · exact ⟨_, _, v, .comparison .equal, rfl, hv⟩
  · exact ⟨_, _, v, .none, rfl, hv⟩

theorem bars_infix_of_operator {operator token : List Char} (h : Operator operator)
    (hin : bars <:+: operator ++ token) : bars <:+: token := by
  have hcons : ∀ {c s}, c ≠ '|' → bars <:+: c :: s → bars <:+: s := bars_infix_of_cons
  cases h with
  | none => exact hin
  | caret => exact hcons (by decide) hin
  | tilde => exact hcons (by decide) hin
  | comparison comparator =>
    cases comparator with
    | atLeast => exact hcons (by decide) (hcons (by decide) hin)
    | atMost => exact hcons (by decide) (hcons (by decide) hin)
    | above => exact hcons (by decide) hin
    | below => exact hcons (by decide) hin
    | equal => exact hcons (by decide) hin

theorem isClause_of_operator {operator token : List Char} {v : Version} (h : Operator operator)
    (hv : Version.parse (String.ofList token) = .ok v) : IsClause (operator ++ token) := by
  cases h with
  | none => exact ⟨_, parse_bare hv⟩
  | caret => exact ⟨_, parse_caret hv⟩
  | tilde => exact ⟨_, parse_tilde hv⟩
  | comparison comparator => exact ⟨_, parse_comparison comparator hv⟩

/-- A word with bars is a clause by its tag. -/
theorem isClause_iff_of_bars (h : bars <:+: word) : IsClause word ↔
    ∃ operator token, Operator operator ∧ word = operator ++ token ∧
      Version.TaggedWithBars token := by
  constructor
  · rintro ⟨clause, hclause⟩
    rw [parse_of_bars h] at hclause
    obtain ⟨operator, token, v, hop, rfl, hv⟩ := exists_operator_of_ofOperator hclause
    have hin : bars <:+: token := bars_infix_of_operator hop h
    exact ⟨operator, token, hop, rfl, Version.taggedWithBars_of_parse hv hin⟩
  · rintro ⟨operator, token, hop, rfl, v, tag, hv, -, -⟩
    exact isClause_of_operator hop hv

end Clause

namespace Range

def IsSpan (ws : List (List Char)) : Prop := ∃ low high, ws = [low, ['-'], high]

def IsVersion (word : List Char) : Prop := ∃ v, Version.parse (String.ofList word) = .ok v

variable {version range : String}

theorem isVersion_iff_of_bars {word : List Char} (h : bars <:+: word) :
    IsVersion word ↔ Version.TaggedWithBars word := by
  constructor
  · rintro ⟨v, hv⟩
    exact Version.taggedWithBars_of_parse hv h
  · rintro ⟨v, tag, hv, -, -⟩
    exact ⟨v, hv⟩

theorem exists_malformed_iff {α : Type} {x : Except Error α}
    (h : ∀ n, x ≠ .error (.longNumeral n)) :
    (∃ token, x = .error (.malformed token)) ↔ ¬ ∃ a, x = .ok a := by
  cases x with
  | ok a => exact iff_of_false nofun fun hnot => hnot ⟨a, rfl⟩
  | error e =>
    cases e with
    | malformed token => exact iff_of_true ⟨token, rfl⟩ nofun
    | longNumeral n => exact absurd rfl (h n)

theorem exists_bound_malformed_iff {word : List Char} (h : WithinDigitLimit word) :
    (∃ token, Clause.bound (String.ofList word) = .error (.malformed token)) ↔
      ¬ IsVersion word := by
  rw [exists_malformed_iff (Clause.bound_ne_longNumeral h)]
  simp only [Clause.bound_eq_ok_iff, IsVersion]

theorem parse_of_not_isSpan (h : ¬ IsSpan (words (normalise range.toList))) :
    (∃ r, parse range = .ok r) ↔ ∀ w ∈ words (normalise range.toList), Clause.IsClause w := by
  unfold parse
  generalize words (normalise range.toList) = ws at h ⊢
  unfold ofWords
  split
  · exact iff_of_true ⟨_, rfl⟩ nofun
  · rename_i low high
    exact absurd ⟨low, high, rfl⟩ h
  · rw [Success.exists_map_eq_ok_iff, Success.exists_mapM_eq_ok_iff]
    rfl

theorem parse_of_span {low high : List Char} {r : Range}
    (h : words (normalise range.toList) = [low, ['-'], high]) : parse range = .ok r ↔
      ∃ v, Version.parse (String.ofList low) = .ok v ∧ r = .between v (String.ofList high) := by
  unfold parse
  rw [h, ofWords, Success.bind_eq_ok_iff]
  simp only [Clause.bound_eq_ok_iff]
  constructor
  · rintro ⟨v, hv, hr⟩
    exact ⟨v, hv, (Except.ok.inj hr).symm⟩
  · rintro ⟨v, hv, rfl⟩
    exact ⟨v, hv, rfl⟩

theorem halfRead_iff_of_span {low high : List Char} {v : Version}
    (hrange : WithinDigitLimit range.toList)
    (h : words (normalise range.toList) = [low, ['-'], high]) :
    HalfRead range v ↔ Version.parse (String.ofList low) = .ok v ∧ ¬ IsVersion high := by
  have hhigh : WithinDigitLimit high := withinDigitLimit_words hrange high (by simp [h])
  simp only [HalfRead, parse_of_span h, ← exists_bound_malformed_iff hhigh, between.injEq]
  constructor
  · rintro ⟨_, token, ⟨_, hv, rfl, rfl⟩, htoken⟩
    exact ⟨hv, token, htoken⟩
  · rintro ⟨hv, token, htoken⟩
    exact ⟨_, token, ⟨v, hv, rfl, rfl⟩, htoken⟩

/-- When a range with bars is refused, and what it covers then. -/
structure Alternation (version range : String) : Prop where
  exists_word : ∃ w ∈ words (normalise range.toList), bars <:+: w
  clause : ∀ w ∈ words (normalise range.toList), bars <:+: w →
    (Clause.IsClause w ↔ ∃ operator token, Clause.Operator operator ∧ w = operator ++ token ∧
      Version.TaggedWithBars token)
  endpoint : ∀ w ∈ words (normalise range.toList), bars <:+: w →
    (IsVersion w ↔ Version.TaggedWithBars w)
  row : ¬ IsSpan (words (normalise range.toList)) →
    (Unrecognised version range ↔ ∃ w ∈ words (normalise range.toList), ¬ Clause.IsClause w)
  span : ∀ low high, words (normalise range.toList) = [low, ['-'], high] →
    (Unrecognised version range ↔ ¬ IsVersion low ∨ ∃ v l, candidate version = .ok (some v) ∧
      Version.parse (String.ofList low) = .ok l ∧ v.precedence l ≠ .lt ∧ ¬ IsVersion high)
  covered : Unrecognised version range → covers range version = .ok (range == version)

theorem unrecognised_row_iff (hversion : WithinDigitLimit version.toList)
    (hrange : WithinDigitLimit range.toList) (h : ¬ IsSpan (words (normalise range.toList))) :
    Unrecognised version range ↔
      ∃ w ∈ words (normalise range.toList), ¬ Clause.IsClause w := by
  obtain ⟨c, hc⟩ := exists_candidate hversion
  have hwhole : ¬ ∃ v low, c = some v ∧ HalfRead range low ∧ v.precedence low ≠ .lt := by
    rintro ⟨_, _, -, ⟨_, _, hr, -⟩, -⟩
    obtain ⟨low, high, hwords, -, -⟩ := parse_eq_between hr
    exact h ⟨low, high, hwords⟩
  rw [unrecognised_iff hc, or_iff_left hwhole, IllFormed,
    exists_malformed_iff (parse_ne_longNumeral hrange), parse_of_not_isSpan h]
  simp only [not_forall, exists_prop]

theorem unrecognised_span_iff (hversion : WithinDigitLimit version.toList)
    (hrange : WithinDigitLimit range.toList) {low high : List Char}
    (h : words (normalise range.toList) = [low, ['-'], high]) :
    Unrecognised version range ↔ ¬ IsVersion low ∨ ∃ v l, candidate version = .ok (some v) ∧
      Version.parse (String.ofList low) = .ok l ∧ v.precedence l ≠ .lt ∧ ¬ IsVersion high := by
  obtain ⟨c, hc⟩ := exists_candidate hversion
  have hlow : (∃ r, parse range = .ok r) ↔ IsVersion low := by
    simp only [parse_of_span h, IsVersion]
    exact ⟨fun ⟨_, v, hv, _⟩ => ⟨v, hv⟩, fun ⟨v, hv⟩ => ⟨_, v, hv, rfl⟩⟩
  rw [unrecognised_iff hc, IllFormed, exists_malformed_iff (parse_ne_longNumeral hrange), hlow, hc]
  simp only [halfRead_iff_of_span hrange h, Except.ok.injEq, and_assoc, and_comm, and_left_comm]

/-- A range with bars is refused unless its words are clauses, those with bars by their tags, or it
is a span with an upper end that is a version or is not read. -/
theorem alternation (version range : String) (hversion : WithinDigitLimit version.toList)
    (hrange : WithinDigitLimit range.toList) (hbars : bars <:+: range.toList) :
    Alternation version range where
  exists_word := exists_mem_words_normalise (List.cons_ne_nil _ _) (List.any_eq_false.1 rfl) hbars
  clause := fun _ _ hin => Clause.isClause_iff_of_bars hin
  endpoint := fun _ _ hin => isVersion_iff_of_bars hin
  row := unrecognised_row_iff hversion hrange
  span := fun _ _ hwords => unrecognised_span_iff hversion hrange hwords
  covered := by
    intro hrefused
    rcases covers_cases hversion hrange with ⟨-, hcovers⟩ | ⟨admitted, heval, -⟩
    · exact hcovers
    · obtain ⟨token, htoken⟩ := hrefused
      rw [heval] at htoken
      exact nomatch htoken

theorem withinDigitLimit_unspaced :
    WithinDigitLimit "1.5.0".toList ∧ WithinDigitLimit "^1.0.0-a||^2.0.0".toList :=
  ⟨.of_length_le (by decide +kernel), .of_length_le (by decide +kernel)⟩

theorem bars_infix_unspaced : bars <:+: "^1.0.0-a||^2.0.0".toList :=
  ⟨"^1.0.0-a".toList, "^2.0.0".toList, by decide +kernel⟩

theorem alternation_unspaced :
    (WithinDigitLimit "1.5.0".toList ∧ WithinDigitLimit "^1.0.0-a||^2.0.0".toList ∧
      bars <:+: "^1.0.0-a||^2.0.0".toList) ∧ Alternation "1.5.0" "^1.0.0-a||^2.0.0" :=
  ⟨⟨withinDigitLimit_unspaced.1, withinDigitLimit_unspaced.2, bars_infix_unspaced⟩,
    alternation _ _ withinDigitLimit_unspaced.1 withinDigitLimit_unspaced.2 bars_infix_unspaced⟩

/-- Alternatives behind a tag are taken for a part of the tag: the first one is evaluated and the
second one is lost. -/
theorem unspaced_alternatives_admitted :
    (WithinDigitLimit "1.5.0".toList ∧ WithinDigitLimit "^1.0.0-a||^2.0.0".toList ∧
      bars <:+: "^1.0.0-a||^2.0.0".toList) ∧
    evaluate "1.5.0" "^1.0.0-a||^2.0.0" = .ok true ∧
    evaluate "2.5.0" "^1.0.0-a||^2.0.0" = .ok false ∧
    ¬ Unrecognised "1.5.0" "^1.0.0-a||^2.0.0" := by
  have hadmitted : evaluate "1.5.0" "^1.0.0-a||^2.0.0" = .ok true := by decide +kernel
  refine ⟨⟨withinDigitLimit_unspaced.1, withinDigitLimit_unspaced.2, bars_infix_unspaced⟩,
    hadmitted, by decide +kernel, ?_⟩
  rintro ⟨token, htoken⟩
  rw [hadmitted] at htoken
  exact nomatch htoken

end Range
end DependencyAudit
