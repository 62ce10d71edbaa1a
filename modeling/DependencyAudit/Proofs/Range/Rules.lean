import DependencyAudit.Proofs.Range.Conjunction
import DependencyAudit.Proofs.Range.Patterns

/-!
# Ranges by rules

A range can be evaluated by an ordered table of rules: the first rule that claims the text takes it
apart once more, by a pattern of its own, and a conjunction leaves each of its words to the rules
for one clause. Every text is claimed and every pattern fits what was claimed for it, so that the
table comes to what the range comes to once it is read. Within the digit limit nothing can go wrong
but that the range is malformed.
-/

namespace DependencyAudit.Range

open Text Version Grammar

/-- Why an evaluation by rules stops. -/
inductive Failure where
  | unclaimed
  | unmatched
  | refused (e : Error)

inductive Rule where
  | any
  | major
  | minor
  | caret
  | tilde
  | span
  | conjunction
  | comparator
  deriving DecidableEq

namespace Rule

def claims (s : List Char) : Rule → Bool
  | any => s.isEmpty || Clause.isWildcard s
  | major => (majorPattern? s).isSome
  | minor => (minorPattern? s).isSome
  | caret => s.head? = some '^' && ! s.any isBlank
  | tilde => s.head? = some '~' && ! s.any isBlank
  | span => (spanPattern? s).isSome
  | conjunction => s.any isBlank
  | comparator => true

def readNumber (s : List Char) : Except Failure Nat :=
  (number s).mapError fun n => .refused (.longNumeral n)

def readVersion (s : List Char) : Except Failure Version :=
  (Clause.bound (String.ofList s)).mapError .refused

/-- The operators in the order in which they are tried. -/
def operators : List Comparator := [.atLeast, .atMost, .above, .below, .equal]

/-- A text without an operator in front is compared for equality. -/
def compare (v : Option Version) (s : List Char) : Except Failure Bool :=
  match operators.find? fun c => (comparatorText c).isPrefixOf s with
  | some c => do
    let bound ← readVersion (s.drop (comparatorText c).length)
    return v.any (c.holds · bound)
  | none => do
    let bound ← readVersion s
    return v.any (Comparator.equal.holds · bound)

/-- Evaluates a text that the rule has claimed, with `clause` for the words of a conjunction. -/
def evaluate (clause : List Char → Except Failure Bool) (v : Option Version) (s : List Char) :
    Rule → Except Failure Bool
  | any => return v.any Clause.any.admits
  | major =>
    match majorPattern? s with
    | some n => do
      let n ← readNumber n
      return v.any (Clause.major n).admits
    | none => throw .unmatched
  | minor =>
    match minorPattern? s with
    | some (n, m) => do
      let n ← readNumber n
      let m ← readNumber m
      return v.any (Clause.minor n m).admits
    | none => throw .unmatched
  | caret => do
    let base ← readVersion (trim (s.drop 1))
    return v.any (Clause.caret base).admits
  | tilde => do
    let base ← readVersion (trim (s.drop 1))
    return v.any (Clause.tilde base).admits
  | span =>
    match spanPattern? s with
    | some (low, high) => do
      if ← compare v ('>' :: '=' :: low) then compare v ('<' :: '=' :: high)
      else return false
    | none => throw .unmatched
  | conjunction => do
    let results ← (words s).mapM clause
    return results.all id
  | comparator => compare v s

end Rule

/-- The rules in the order in which they are tried. The last one claims every text. -/
def rules : List Rule :=
  [.any, .major, .minor, .caret, .tilde, .span, .conjunction, .comparator]

def clauseRules : List Rule := rules.filter fun rule => rule ≠ .span && rule ≠ .conjunction

def dispatchClause (v : Option Version) (s : List Char) : Except Failure Bool :=
  match clauseRules.find? (Rule.claims s) with
  | some rule => rule.evaluate (fun _ => throw .unclaimed) v s
  | none => throw .unclaimed

def dispatch (v : Option Version) (s : List Char) : Except Failure Bool :=
  match rules.find? (Rule.claims s) with
  | some rule => rule.evaluate (dispatchClause v) v s
  | none => throw .unclaimed

def evaluateByRules (version range : String) : Except Failure Bool := do
  let candidate ← (candidate version).mapError fun n => .refused (.longNumeral n)
  dispatch candidate (normalise range.toList)

/-- What a clause that is read says of the candidate. -/
def clauseOutcome (v : Option Version) (read : Except Error Clause) : Except Failure Bool :=
  (verdict v <$> read).mapError .refused

section

variable {v : Option Version} {s : List Char}

theorem compare_of_find? {c : Comparator} {rest : List Char}
    (hfind : Rule.operators.find? (fun c => (comparatorText c).isPrefixOf s) = some c)
    (hrest : s.drop (comparatorText c).length = rest) :
    Rule.compare v s =
      clauseOutcome v (Clause.comparison c <$> Clause.bound (String.ofList rest)) := by
  unfold Rule.compare Rule.readVersion clauseOutcome
  rw [hfind]
  dsimp only
  rw [hrest]
  cases Clause.bound (String.ofList rest) <;> rfl

theorem compare_bare
    (hfind : Rule.operators.find? (fun c => (comparatorText c).isPrefixOf s) = none) :
    Rule.compare v s =
      clauseOutcome v (Clause.comparison .equal <$> Clause.bound (String.ofList s)) := by
  unfold Rule.compare Rule.readVersion clauseOutcome
  rw [hfind]
  dsimp only
  cases Clause.bound (String.ofList s) <;> rfl

/-- Behind an ordering sign an equality sign belongs to the operator. -/
theorem compare_ordering {c : Char} (hc : c = '<' ∨ c = '>') (s : List Char) :
    Rule.compare v (c :: s) = clauseOutcome v (Clause.ofOperator (c :: s)) := by
  cases s with
  | nil => rcases hc with rfl | rfl <;> exact compare_of_find? rfl rfl
  | cons d s =>
    by_cases hd : d = '='
    · subst hd
      rcases hc with rfl | rfl <;> exact compare_of_find? rfl rfl
    · have hne : ¬ '=' = d := Ne.symm hd
      rcases hc with rfl | rfl
      · rw [Clause.ofOperator_below hd]
        exact compare_of_find? (by simp [Rule.operators, comparatorText, hne]) rfl
      · rw [Clause.ofOperator_above hd]
        exact compare_of_find? (by simp [Rule.operators, comparatorText, hne]) rfl

/-- Trying the operators one after the other finds the one in front. -/
theorem compare_eq {c : Char} (hcaret : c ≠ '^') (htilde : c ≠ '~') (s : List Char) :
    Rule.compare v (c :: s) = clauseOutcome v (Clause.ofOperator (c :: s)) := by
  by_cases ho : isOperator c
  · rcases (isOperator_iff c).1 ho with rfl | rfl | rfl | rfl | rfl
    · exact compare_ordering (.inl rfl) s
    · exact compare_ordering (.inr rfl) s
    · exact compare_of_find? rfl rfl
    · contradiction
    · contradiction
  · rw [Clause.ofOperator_bare ho]
    have hne : ∀ d, isOperator d → c ≠ d := fun d hd h => ho (h ▸ hd)
    refine compare_bare ?_
    simp [Rule.operators, comparatorText, Ne.symm (hne '>' rfl), Ne.symm (hne '<' rfl),
      Ne.symm (hne '=' rfl)]

theorem spanPattern?_of_none_blank (hne : s ≠ []) (hs : ∀ c ∈ s, ¬ isBlank c) :
    spanPattern? s = none := by
  rw [Option.eq_none_iff_forall_ne_some]
  rintro ⟨low, high⟩ h
  have hwords := (spanPattern?_eq_some_iff (trim_of_none_blank hs)).1 h
  rw [words_of_none_blank hne hs] at hwords
  exact nomatch hwords

theorem clauseOutcome_parse_of_partiallyRead {read : Except LongNumeral Clause}
    (hwild : Clause.isWildcard s = false) (h : PartiallyRead s read) :
    clauseOutcome v (Clause.parse s) = clauseOutcome v (read.mapError .longNumeral) := by
  unfold Clause.parse
  rw [hwild, partialVersion?_eq_some_iff.2 h]
  rfl

theorem clauseParse_of_patterns (hwild : Clause.isWildcard s = false)
    (h : Clause.partialVersion? s = none) : Clause.parse s = Clause.ofOperator s := by
  unfold Clause.parse
  rw [hwild, h]
  rfl

theorem evaluate_caret {clause : List Char → Except Failure Bool} (hs : trim s = s) :
    Rule.caret.evaluate clause v ('^' :: s) =
      clauseOutcome v (Clause.caret <$> Clause.bound (String.ofList s)) := by
  simp only [Rule.evaluate, Rule.readVersion, List.drop_succ_cons, List.drop_zero, hs]
  cases Clause.bound (String.ofList s) <;> rfl

theorem evaluate_tilde {clause : List Char → Except Failure Bool} (hs : trim s = s) :
    Rule.tilde.evaluate clause v ('~' :: s) =
      clauseOutcome v (Clause.tilde <$> Clause.bound (String.ofList s)) := by
  simp only [Rule.evaluate, Rule.readVersion, List.drop_succ_cons, List.drop_zero, hs]
  cases Clause.bound (String.ofList s) <;> rfl

/-- The rules for a text that neither is a wildcard nor fits the pattern of a partial version. -/
theorem evaluate_operatorRule {c : Char} {clause : List Char → Except Failure Bool}
    (hs : trim s = s) :
    (if (c :: s).head? = some '^' then Rule.caret
      else if (c :: s).head? = some '~' then Rule.tilde else Rule.comparator).evaluate clause v
        (c :: s) = clauseOutcome v (Clause.ofOperator (c :: s)) := by
  split
  · rename_i hcaret
    rw [Option.some.inj hcaret]
    exact evaluate_caret hs
  · rename_i hcaret
    split
    · rename_i htilde
      rw [Option.some.inj htilde]
      exact evaluate_tilde hs
    · rename_i htilde
      exact compare_eq (fun hc => hcaret (congrArg some hc)) (fun hc => htilde (congrArg some hc)) s

/-- The rule that claims a word, whether it is a word of a conjunction or all of the text. -/
def wordRule (s : List Char) : Rule :=
  if Clause.isWildcard s then .any
  else if (majorPattern? s).isSome then .major
  else if (minorPattern? s).isSome then .minor
  else if s.head? = some '^' then .caret
  else if s.head? = some '~' then .tilde
  else .comparator

theorem find?_claims_word {table : List Rule} (htable : table = rules ∨ table = clauseRules)
    (hne : s ≠ []) (hs : ∀ c ∈ s, ¬ isBlank c) :
    table.find? (Rule.claims s) = some (wordRule s) := by
  have hblank : s.any isBlank = false := by simpa using hs
  have hempty : s.isEmpty = false := by simpa using hne
  have hspan := spanPattern?_of_none_blank hne hs
  unfold wordRule
  split_ifs <;> rcases htable with rfl | rfl <;> simp_all [rules, clauseRules, Rule.claims]

theorem evaluate_wordRule (hne : s ≠ []) (hs : ∀ c ∈ s, ¬ isBlank c)
    (clause : List Char → Except Failure Bool) :
    (wordRule s).evaluate clause v s = clauseOutcome v (Clause.parse s) := by
  have hline := withoutFinalNewline_of_none_blank hs
  unfold wordRule
  split
  · rename_i hwild
    rw [Clause.parse, if_pos hwild]
    rfl
  · rename_i hwild
    rw [Bool.not_eq_true] at hwild
    cases hmajor : majorPattern? s with
    | some n =>
      rw [clauseOutcome_parse_of_partiallyRead hwild (partiallyRead_of_majorPattern? hline hmajor)]
      simp only [Option.isSome_some, if_true, Rule.evaluate, hmajor, Rule.readNumber]
      cases number n <;> rfl
    | none =>
      cases hminor : minorPattern? s with
      | some numerals =>
        rw [clauseOutcome_parse_of_partiallyRead hwild
          (partiallyRead_of_minorPattern? hline hminor)]
        simp only [Option.isSome_none, Option.isSome_some, Bool.false_eq_true, if_true, if_false,
          Rule.evaluate, hminor, Rule.readNumber]
        cases number numerals.1 <;> cases number numerals.2 <;> rfl
      | none =>
        rw [clauseParse_of_patterns hwild
          (partialVersion?_eq_none_of_patterns hline hmajor hminor)]
        obtain ⟨c, t, rfl⟩ := List.exists_cons_of_ne_nil hne
        exact evaluate_operatorRule (trim_of_none_blank (List.forall_mem_cons.1 hs).2)

theorem dispatchClause_word (hne : s ≠ []) (hs : ∀ c ∈ s, ¬ isBlank c) :
    dispatchClause v s = clauseOutcome v (Clause.parse s) := by
  rw [dispatchClause, find?_claims_word (.inr rfl) hne hs]
  exact evaluate_wordRule hne hs _

theorem dispatch_word (hne : s ≠ []) (hs : ∀ c ∈ s, ¬ isBlank c) :
    dispatch v s = clauseOutcome v (Clause.parse s) := by
  rw [dispatch, find?_claims_word (.inl rfl) hne hs]
  exact evaluate_wordRule hne hs _

/-- With a blank in it, a text is claimed by none of the rules for one clause. -/
theorem find?_claims_of_blank (hs : trim s = s) (hblank : s.any isBlank) :
    rules.find? (Rule.claims s) =
      some (if (spanPattern? s).isSome then .span else .conjunction) := by
  have hline := withoutFinalNewline_of_trim hs
  obtain ⟨c, hc, hcblank⟩ := List.any_eq_true.1 hblank
  have hempty : s.isEmpty = false := List.isEmpty_eq_false_iff.2 (List.ne_nil_of_mem hc)
  have hwild : Clause.isWildcard s = false := by
    rw [Bool.eq_false_iff]
    intro h
    obtain ⟨w, rfl⟩ := isWildcard_iff.1 h
    rw [List.mem_singleton.1 hc] at hcblank
    cases w <;> exact absurd hcblank (by decide)
  have hmajor : majorPattern? s = none := by
    rw [Option.eq_none_iff_forall_ne_some]
    exact fun n h => (partiallyRead_of_majorPattern? hline h).not_blank c hc hcblank
  have hminor : minorPattern? s = none := by
    rw [Option.eq_none_iff_forall_ne_some]
    exact fun n h => (partiallyRead_of_minorPattern? hline h).not_blank c hc hcblank
  split_ifs <;> simp_all [rules, Rule.claims]

/-- The ends of a span are compared as if they were clauses, the upper end only when the lower one
is reached. -/
theorem evaluate_span {low high : List Char} (hspan : spanPattern? s = some (low, high))
    (clause : List Char → Except Failure Bool) : Rule.span.evaluate clause v s =
      (ofWords [low, ['-'], high] >>= fun r => r.admits v).mapError .refused := by
  have hlow : Rule.compare v ('>' :: '=' :: low) =
      clauseOutcome v (Clause.comparison .atLeast <$> Clause.bound (String.ofList low)) :=
    compare_of_find? rfl rfl
  have hhigh : Rule.compare v ('<' :: '=' :: high) =
      clauseOutcome v (Clause.comparison .atMost <$> Clause.bound (String.ofList high)) :=
    compare_of_find? rfl rfl
  simp only [Rule.evaluate, hspan, hlow, hhigh, ofWords]
  cases Clause.bound (String.ofList low) with
  | error e => rfl
  | ok base =>
    cases v with
    | none => rfl
    | some v =>
      change (if Comparator.atLeast.holds v base then _ else _ : Except Failure Bool) =
        (if Comparator.atLeast.holds v base then _ else _ : Except Error Bool).mapError .refused
      split
      · cases Clause.bound (String.ofList high) <;> rfl
      · rfl

theorem mapM_dispatchClause {ws : List (List Char)}
    (hws : ∀ w ∈ ws, w ≠ [] ∧ ∀ c ∈ w, ¬ isBlank c) :
    ws.mapM (dispatchClause v) =
      (List.map (verdict v) <$> ws.mapM Clause.parse).mapError .refused := by
  induction ws with
  | nil => rfl
  | cons w ws ih =>
    rw [List.forall_mem_cons] at hws
    rw [List.mapM_cons, List.mapM_cons, ih hws.2, dispatchClause_word hws.1.1 hws.1.2,
      clauseOutcome]
    cases Clause.parse w with
    | error e => rfl
    | ok clause => cases ws.mapM Clause.parse <;> rfl

/-- Every word of a conjunction is evaluated, whatever the ones before it say. -/
theorem evaluate_conjunction : Rule.conjunction.evaluate (dispatchClause v) v s =
    ((fun clauses => clauses.all (verdict v)) <$> (words s).mapM Clause.parse).mapError
      .refused := by
  have hwords : ∀ w ∈ words s, w ≠ [] ∧ ∀ c ∈ w, ¬ isBlank c :=
    fun w hw => ⟨ne_nil_of_mem_words hw, not_blank_of_mem_words hw⟩
  rw [Rule.evaluate, mapM_dispatchClause hwords]
  cases (words s).mapM Clause.parse with
  | error e => rfl
  | ok clauses => exact congrArg Except.ok List.all_map

/-- The rules come to what the words of the text come to. -/
theorem dispatch_eq (v : Option Version) (hs : trim s = s) :
    dispatch v s = (ofWords (words s) >>= fun r => r.admits v).mapError .refused := by
  by_cases hnil : s = []
  · subst hnil
    change .ok (verdict v .any) = ((Range.all [.any]).admits v).mapError Failure.refused
    rw [admits_all [.any] (List.cons_ne_nil _ _)]
    exact congrArg Except.ok (Bool.and_true (verdict v .any)).symm
  by_cases hblank : s.any isBlank
  · rw [dispatch, find?_claims_of_blank hs hblank]
    cases hspan : spanPattern? s with
    | some ends =>
      rw [(spanPattern?_eq_some_iff hs).1 hspan]
      exact evaluate_span hspan _
    | none =>
      have hne : words s ≠ [] := fun h =>
        hnil (eq_nil_of_suffix hs List.suffix_rfl h)
      have hwords : ∀ low high, words s ≠ [low, ['-'], high] := by
        intro low high h
        rw [(spanPattern?_eq_some_iff hs).2 h] at hspan
        contradiction
      rw [ofWords_of_ne_span hne hwords, mapM_bind_admits hne]
      exact evaluate_conjunction
  · have hnone : ∀ c ∈ s, ¬ isBlank c := by simpa using hblank
    have hne : [s] ≠ [] := List.cons_ne_nil s []
    have hspan : ∀ low high, [s] ≠ [low, ['-'], high] := by
      intro low high h
      exact nomatch h
    rw [dispatch_word hnil hnone, words_of_none_blank hnil hnone, ofWords_of_ne_span hne hspan,
      mapM_bind_admits hne, List.mapM_cons, List.mapM_nil, clauseOutcome]
    cases Clause.parse s with
    | error e => rfl
    | ok clause => exact congrArg Except.ok (Bool.and_true (verdict v clause)).symm

end

theorem evaluateByRules_eq (version range : String) :
    evaluateByRules version range = (evaluate version range).mapError .refused := by
  cases hc : candidate version with
  | error n =>
    rw [evaluateByRules, hc, evaluate_of_candidate_error hc]
    rfl
  | ok c =>
    rw [evaluateByRules, hc, evaluate_eq_bind hc]
    exact dispatch_eq c (trim_normalise range.toList)

/-- A version is decided on, or the range is refused as malformed. By rules and by words it is the
same, and the callers take the decision over or fall back on one of their own. -/
inductive Settled (version range : String) : Prop
  | decided (admitted : Bool) (byRules : evaluateByRules version range = .ok admitted)
      (byWords : evaluate version range = .ok admitted)
      (satisfied : satisfies version range = .ok admitted)
      (covered : covers range version = .ok admitted)
  | refused (token : String)
      (byRules : evaluateByRules version range = .error (.refused (.malformed token)))
      (byWords : evaluate version range = .error (.malformed token))
      (satisfied : satisfies version range = .ok false)
      (covered : covers range version = .ok (range == version))

/-- Within the digit limit every version is settled against every range. -/
theorem evaluate_settled (version range : String) (hversion : WithinDigitLimit version.toList)
    (hrange : WithinDigitLimit range.toList) : Settled version range := by
  have hrules := evaluateByRules_eq version range
  cases h : evaluate version range with
  | ok admitted =>
    rw [h] at hrules
    have hsatisfies : satisfies version range = .ok admitted := by
      unfold satisfies
      rw [h]
    have hcovers : covers range version = .ok admitted := by
      unfold covers
      rw [h]
    exact .decided admitted hrules h hsatisfies hcovers
  | error e =>
    cases e with
    | malformed token =>
      rw [h] at hrules
      have hsatisfies : satisfies version range = .ok false := by
        unfold satisfies
        rw [h]
      have hcovers : covers range version = .ok (range == version) := by
        unfold covers
        rw [h]
      exact .refused token hrules h hsatisfies hcovers
    | longNumeral n => exact absurd h (evaluate_ne_longNumeral hversion hrange n)

/-- Operators parted from their versions, digits of another script, and an upper end that is no
version. -/
theorem evaluate_settled_tagged :
    (WithinDigitLimit "١.4.0".toList ∧ WithinDigitLimit "1.0.0 -	>  = latest".toList) ∧
      Settled "١.4.0" "1.0.0 -	>  = latest" := by
  have hversion : WithinDigitLimit "١.4.0".toList := .of_length_le (by decide +kernel)
  have hrange : WithinDigitLimit "1.0.0 -	>  = latest".toList := .of_length_le (by decide +kernel)
  exact ⟨⟨hversion, hrange⟩, evaluate_settled _ _ hversion hrange⟩

end DependencyAudit.Range
