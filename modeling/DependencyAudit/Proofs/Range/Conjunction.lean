import DependencyAudit.Proofs.Range.Denotation
import DependencyAudit.Proofs.Range.Recognition

/-!
# Conjunctions of clauses

A row of words comes to what its words come to one by one: the first word that cannot be read is the
fault of the row, and a row that is read admits what all its words admit. So the order of the words
and their repetition make no difference, and one more word that is read only narrows the row.
-/

namespace DependencyAudit.Range

open Text

/-- A word that stands for itself in a row, well-formed or not. A dash would make a span of the words
beside it, and the blanks behind an operator would be lost. -/
structure ClauseWord where
  text : String
  ne_nil : text.toList ≠ []
  not_blank : ∀ c ∈ text.toList, ¬ isBlank c
  not_operator : ∀ c ∈ text.toList.getLast?, ¬ isOperator c
  ne_dash : text.toList ≠ ['-']
  withinDigitLimit : WithinDigitLimit text.toList

/-- Words in a row with a gap between each two. -/
inductive Joined : List ClauseWord → List Char → Prop
  | one (w : ClauseWord) : Joined [w] w.text.toList
  | cons (w : ClauseWord) {ws : List ClauseWord} {gap s : List Char} (hgap : AllBlank gap)
      (hne : gap ≠ []) (hws : Joined ws s) : Joined (w :: ws) (w.text.toList ++ (gap ++ s))

variable {version : String} {ws ws' : List ClauseWord}

theorem ClauseWord.closed (w : ClauseWord) : Grammar.Closed w.text.toList :=
  .of_getLast? w.ne_nil w.not_blank w.not_operator

theorem Joined.exists_cons {s : List Char} (h : Joined ws s) : ∃ w rest, ws = w :: rest := by
  cases h with
  | one w => exact ⟨w, [], rfl⟩
  | cons w => exact ⟨w, _, rfl⟩

theorem Joined.words_glue {s : List Char} (h : Joined ws s) :
    words (glue false s) = ws.map fun w => w.text.toList := by
  induction h with
  | one w =>
    rw [w.closed.glue, w.closed.words_eq]
    rfl
  | cons w hgap hne hws ih =>
    rw [Grammar.words_glue_gap w.closed (w.closed.glue false) (w.closed.behindOperator false) hgap
      hne, ih]
    rfl

theorem Joined.parse {text : String} (h : Joined ws text.toList) :
    parse text = .all <$> ws.mapM fun w => Clause.parse w.text.toList := by
  have hdash : ∀ w ∈ ws.map fun w => w.text.toList, w ≠ ['-'] := by
    intro w hw
    obtain ⟨t, -, rfl⟩ := List.mem_map.1 hw
    exact t.ne_dash
  have hmap : (ws.map fun w => w.text.toList).mapM Clause.parse =
      ws.mapM fun w => Clause.parse w.text.toList := List.mapM_map
  unfold Range.parse
  rw [words_normalise, h.words_glue, ← hmap]
  obtain ⟨w, rest, rfl⟩ := h.exists_cons
  rw [List.map_cons] at hdash ⊢
  exact Grammar.ofWords_of_not_dash (List.forall_mem_cons.1 hdash).2

/-- What a clause says of a candidate. A text that is no version is not admitted. -/
def verdict (candidate : Option Version) (clause : Clause) : Bool :=
  candidate.any clause.admits

theorem admits_all (clauses : List Clause) (hne : clauses ≠ []) (c : Option Version) :
    (Range.all clauses).admits c = .ok (clauses.all (verdict c)) := by
  cases c with
  | none =>
    obtain ⟨clause, rest, rfl⟩ := List.exists_cons_of_ne_nil hne
    rfl
  | some v => rfl

theorem evaluate_of_candidate_error {n : LongNumeral} (hc : candidate version = .error n)
    (text : String) : evaluate version text = .error (.longNumeral n) := by
  unfold evaluate
  rw [hc]
  rfl

/-- A row of clauses, read one after the other and then evaluated. -/
theorem mapM_bind_admits {α : Type} {read : α → Except Error Clause} {xs : List α} (hne : xs ≠ [])
    (c : Option Version) : ((.all <$> xs.mapM read) >>= fun r : Range => r.admits c) =
      (fun clauses => clauses.all (verdict c)) <$> xs.mapM read := by
  cases hread : xs.mapM read with
  | error e => rfl
  | ok clauses =>
    have hclauses : clauses ≠ [] := by
      rintro rfl
      cases Success.mapM_eq_ok_iff.1 hread
      exact hne rfl
    exact admits_all clauses hclauses c

theorem Joined.evaluate_of_candidate {text : String} (h : Joined ws text.toList)
    {c : Option Version} (hc : candidate version = .ok c) : evaluate version text =
      (fun clauses => clauses.all (verdict c)) <$> ws.mapM fun w => Clause.parse w.text.toList := by
  obtain ⟨w, rest, rfl⟩ := h.exists_cons
  rw [evaluate_eq_bind hc, h.parse]
  exact mapM_bind_admits (List.cons_ne_nil w rest) c

theorem ClauseWord.evaluate_of_candidate (w : ClauseWord) {c : Option Version}
    (hc : candidate version = .ok c) :
    evaluate version w.text = verdict c <$> Clause.parse w.text.toList := by
  rw [(Joined.one w).evaluate_of_candidate hc, List.mapM_cons, List.mapM_nil]
  cases Clause.parse w.text.toList with
  | error e => rfl
  | ok clause => exact congrArg Except.ok (Bool.and_true (verdict c clause))

/-- A row comes to what its words come to, taken one after the other. -/
theorem Joined.evaluate_eq {text : String} (h : Joined ws text.toList) (version : String) :
    evaluate version text =
      (fun verdicts => verdicts.all id) <$> ws.mapM fun w => evaluate version w.text := by
  cases hc : candidate version with
  | error n =>
    obtain ⟨w, rest, rfl⟩ := h.exists_cons
    rw [evaluate_of_candidate_error hc, List.mapM_cons, evaluate_of_candidate_error hc]
    rfl
  | ok c =>
    have hwords : (ws.mapM fun w => evaluate version w.text) =
        List.map (verdict c) <$> ws.mapM fun w => Clause.parse w.text.toList := by
      simp only [fun w : ClauseWord => w.evaluate_of_candidate hc]
      exact Success.mapM_map _ _ _
    rw [h.evaluate_of_candidate hc, hwords]
    cases ws.mapM fun w => Clause.parse w.text.toList with
    | error e => rfl
    | ok clauses =>
      have hall : (clauses.map (verdict c)).all id = clauses.all (verdict c) := List.all_map
      exact congrArg Except.ok hall.symm

/-- The numerals of a word are never too long, so only the candidate's can be. -/
theorem ClauseWord.candidate_of_longNumeral (w : ClauseWord) {n : LongNumeral}
    (h : evaluate version w.text = .error (.longNumeral n)) : candidate version = .error n := by
  cases hc : candidate version with
  | error n' =>
    rw [evaluate_of_candidate_error hc] at h
    rw [Error.longNumeral.inj (Except.error.inj h)]
  | ok c =>
    rw [w.evaluate_of_candidate hc, Success.map_eq_error_iff] at h
    exact absurd h (Clause.parse_ne_longNumeral w.withinDigitLimit n)

variable {text : String}

theorem Joined.exists_of_evaluate_eq_error (h : Joined ws text.toList) {e : Error}
    (he : evaluate version text = .error e) : ∃ w ∈ ws, evaluate version w.text = .error e := by
  rw [h.evaluate_eq, Success.map_eq_error_iff] at he
  exact Success.exists_of_mapM_eq_error he

theorem Joined.evaluate_eq_ok_iff (h : Joined ws text.toList) (version : String)
    (admitted : Bool) : evaluate version text = .ok admitted ↔
      (∀ w ∈ ws, ∃ b, evaluate version w.text = .ok b) ∧
        (admitted ↔ ∀ w ∈ ws, evaluate version w.text = .ok true) := by
  rw [h.evaluate_eq, Success.map_eq_ok_iff, ← Success.exists_mapM_eq_ok_iff]
  constructor
  · rintro ⟨verdicts, hverdicts, rfl⟩
    exact ⟨⟨verdicts, hverdicts⟩, Success.all_of_mapM_eq_ok hverdicts⟩
  · rintro ⟨⟨verdicts, hverdicts⟩, hadmitted⟩
    have hall := Success.all_of_mapM_eq_ok hverdicts
    exact ⟨verdicts, hverdicts, Bool.eq_iff_iff.2 (hall.trans hadmitted.symm)⟩

/-- A row is refused because of its words just in case one of them is. -/
theorem Joined.unrecognised_iff (h : Joined ws text.toList) (version : String) :
    Unrecognised version text ↔ ∃ w ∈ ws, Unrecognised version w.text := by
  constructor
  · rintro ⟨token, htoken⟩
    obtain ⟨w, hw, he⟩ := h.exists_of_evaluate_eq_error htoken
    exact ⟨w, hw, token, he⟩
  · rintro ⟨w, hw, token, he⟩
    cases hrow : evaluate version text with
    | ok admitted =>
      obtain ⟨b, hb⟩ := ((h.evaluate_eq_ok_iff version admitted).1 hrow).1 w hw
      rw [he] at hb
      exact nomatch hb
    | error e =>
      cases e with
      | malformed token' => exact ⟨token', hrow⟩
      | longNumeral n =>
        obtain ⟨w', -, he'⟩ := h.exists_of_evaluate_eq_error hrow
        rw [evaluate_of_candidate_error (w'.candidate_of_longNumeral he')] at he
        exact nomatch he

theorem exists_evaluate_of_recognised {c : Option Version} (hc : candidate version = .ok c)
    (w : ClauseWord) (hw : ¬ Unrecognised version w.text) :
    ∃ b, evaluate version w.text = .ok b := by
  cases h : evaluate version w.text with
  | ok b => exact ⟨b, rfl⟩
  | error e =>
    cases e with
    | malformed token => exact absurd ⟨token, h⟩ hw
    | longNumeral n =>
      rw [w.candidate_of_longNumeral h] at hc
      exact nomatch hc

theorem Joined.exists_evaluate (h : Joined ws text.toList) {c : Option Version}
    (hc : candidate version = .ok c) (hnot : ¬ Unrecognised version text) :
    ∃ admitted, evaluate version text = .ok admitted := by
  have hwords : ∀ w ∈ ws, ∃ b, evaluate version w.text = .ok b := by
    intro w hw
    apply exists_evaluate_of_recognised hc w
    exact fun hword => hnot ((h.unrecognised_iff version).2 ⟨w, hw, hword⟩)
  obtain ⟨verdicts, hverdicts⟩ := Success.exists_mapM_eq_ok_iff.2 hwords
  rw [h.evaluate_eq, hverdicts]
  exact ⟨_, rfl⟩

/-- Two ranges with the same outcome on a candidate: both are refused, or both come to the same. -/
structure Alike (version range range' : String) : Prop where
  unrecognised_iff : Unrecognised version range ↔ Unrecognised version range'
  evaluate_iff : ∀ admitted,
    evaluate version range = .ok admitted ↔ evaluate version range' = .ok admitted

theorem Joined.alike {text' : String} (h : Joined ws text.toList) (h' : Joined ws' text'.toList)
    (hmem : ∀ w, w ∈ ws' ↔ w ∈ ws) (version : String) : Alike version text text' := by
  constructor
  · rw [h.unrecognised_iff, h'.unrecognised_iff]
    simp only [hmem]
  · intro admitted
    rw [h.evaluate_eq_ok_iff, h'.evaluate_eq_ok_iff]
    simp only [hmem]

/-- One more word that is read does not undo a refusal. -/
theorem Joined.narrowed {text' : String} (h : Joined ws text.toList)
    (h' : Joined ws' text'.toList) {w : ClauseWord} (hmem : ∀ u, u ∈ ws' ↔ u = w ∨ u ∈ ws)
    (hw : ¬ Unrecognised version w.text) (hfalse : evaluate version text = .ok false) :
    evaluate version text' = .ok false := by
  obtain ⟨hread, hadmitted⟩ := (h.evaluate_eq_ok_iff version false).1 hfalse
  have hrefused : ¬ ∀ u ∈ ws, evaluate version u.text = .ok true :=
    fun hall => Bool.false_ne_true (hadmitted.2 hall)
  have hc : ∃ c, candidate version = .ok c := by
    cases hc : candidate version with
    | ok c => exact ⟨c, rfl⟩
    | error n =>
      rw [evaluate_of_candidate_error hc] at hfalse
      exact nomatch hfalse
  obtain ⟨c, hc⟩ := hc
  rw [h'.evaluate_eq_ok_iff]
  refine ⟨fun u hu => ?_, iff_of_false Bool.false_ne_true fun hall => ?_⟩
  · rcases (hmem u).1 hu with rfl | hu
    · exact exists_evaluate_of_recognised hc u hw
    · exact hread u hu
  · exact hrefused fun u hu => hall u ((hmem u).2 (.inr hu))

/-- What a row of words comes to on a candidate. -/
structure Conjunction (version : String) (ws : List ClauseWord) (text : String) : Prop where
  evaluate_eq : evaluate version text =
    (fun verdicts => verdicts.all id) <$> ws.mapM fun w => evaluate version w.text
  unrecognised_iff : Unrecognised version text ↔ ∃ w ∈ ws, Unrecognised version w.text
  verdict_iff : ∀ admitted, evaluate version text = .ok admitted ↔
    (∀ w ∈ ws, ∃ b, evaluate version w.text = .ok b) ∧
      (admitted ↔ ∀ w ∈ ws, evaluate version w.text = .ok true)
  exists_verdict : WithinDigitLimit version.toList → ¬ Unrecognised version text →
    ∃ admitted, evaluate version text = .ok admitted
  reordered : ∀ ws' (text' : String), Joined ws' text'.toList → (∀ w, w ∈ ws' ↔ w ∈ ws) →
    Alike version text text'
  narrowed : ∀ w ws' (text' : String), Joined ws' text'.toList →
    (∀ u, u ∈ ws' ↔ u = w ∨ u ∈ ws) → ¬ Unrecognised version w.text →
    evaluate version text = .ok false → evaluate version text' = .ok false

/-- A row of words is the conjunction of its words, faults included, in any order. -/
theorem evaluate_joined (version : String) (ws : List ClauseWord) (text : String)
    (h : Joined ws text.toList) : Conjunction version ws text where
  evaluate_eq := h.evaluate_eq version
  unrecognised_iff := h.unrecognised_iff version
  verdict_iff := h.evaluate_eq_ok_iff version
  exists_verdict hversion hnot := by
    obtain ⟨c, hc⟩ := exists_candidate hversion
    exact h.exists_evaluate hc hnot
  reordered _ _ h' hmem := h.alike h' hmem version
  narrowed _ _ _ h' hmem hw hfalse := h.narrowed h' hmem hw hfalse

def atLeastWord : ClauseWord where
  text := ">=1.0.0"
  ne_nil := by decide
  not_blank := List.any_eq_false.1 rfl
  not_operator := fun c hc => Option.some.inj hc ▸ by decide
  ne_dash := by decide
  withinDigitLimit := .of_length_le (by decide)

def tagWord : ClauseWord where
  text := "latest"
  ne_nil := by decide
  not_blank := List.any_eq_false.1 rfl
  not_operator := fun c hc => Option.some.inj hc ▸ by decide
  ne_dash := by decide
  withinDigitLimit := .of_length_le (by decide)

/-- The word that cannot be read is noticed behind one that refuses the candidate. -/
theorem evaluate_joined_tagged :
    Joined [atLeastWord, tagWord] ">=1.0.0\t\nlatest".toList ∧
      Conjunction "0.1.0" [atLeastWord, tagWord] ">=1.0.0\t\nlatest" := by
  have hgap : AllBlank ['\t', '\n'] := List.forall_mem_cons.2 ⟨rfl, List.forall_mem_singleton.2 rfl⟩
  have hjoined : Joined [atLeastWord, tagWord] ">=1.0.0\t\nlatest".toList :=
    .cons atLeastWord hgap (List.cons_ne_nil _ _) (.one tagWord)
  exact ⟨hjoined, evaluate_joined "0.1.0" _ _ hjoined⟩

end DependencyAudit.Range
