import DependencyAudit.Proofs.Range.Terms

/-!
# Which ranges are recognised

Whether a range is recognised is up to the range alone, but for the spans that are read in halves:
the lower end is a version, the upper end is not, and only a candidate that reaches the lower end
notices. A text that keeps to the digit limit is always read to the end.
-/

namespace DependencyAudit

open Text

namespace Clause

theorem bound_ne_longNumeral {token : List Char} (h : WithinDigitLimit token) (n : LongNumeral) :
    bound (String.ofList token) ≠ .error (.longNumeral n) := by
  have htoken : WithinDigitLimit (String.ofList token).toList := by rwa [String.toList_ofList]
  have hparse := Version.parse_ne_longNumeral (Version.not_hasLongNumeral htoken) n
  unfold bound
  split
  · exact fun he => nomatch he
  · exact fun he => nomatch he
  · rename_i n' hn
    intro he
    apply hparse
    rw [hn, Range.Error.longNumeral.inj (Except.error.inj he)]

theorem exists_of_partialVersion?_eq_some {word : List Char} (h : WithinDigitLimit word)
    {read : Except LongNumeral Clause} (hread : partialVersion? word = some read) :
    ∃ clause, read = .ok clause := by
  have hnumber : ∀ part ∈ cut (· == '.') word, isNumeral part →
      number part = .ok (numeralValue part) :=
    fun part hpart hn => number_of_length_le (h.length_le (infix_of_mem_cut hpart) hn)
  have hmajor : ∀ n ∈ cut (· == '.') word, isNumeral n →
      some (major <$> number n) = some read → ∃ clause, read = .ok clause := by
    intro n hn hnumeral hread
    rw [hnumber n hn hnumeral] at hread
    exact ⟨_, (Option.some.inj hread).symm⟩
  have hminor : ∀ n ∈ cut (· == '.') word, ∀ m ∈ cut (· == '.') word, isNumeral n →
      (if isWildcard m then some (major <$> number n)
        else if isNumeral m then some (minor <$> number n <*> number m) else none) = some read →
      ∃ clause, read = .ok clause := by
    intro n hn m hm hnumeral hread
    split at hread
    · exact hmajor n hn hnumeral hread
    · split at hread
      · rename_i hnumeral'
        rw [hnumber n hn hnumeral, hnumber m hm hnumeral'] at hread
        exact ⟨_, (Option.some.inj hread).symm⟩
      · contradiction
  unfold partialVersion? at hread
  split at hread
  · rename_i n hcut
    split at hread
    · rename_i hn
      exact hmajor n (by simp [hcut]) hn hread
    · contradiction
  · rename_i n m hcut
    split at hread
    · contradiction
    · rename_i hn
      exact hminor n (by simp [hcut]) m (by simp [hcut]) (by simpa using hn) hread
  · rename_i n m p hcut
    split at hread
    · contradiction
    · rename_i hn
      rw [Bool.or_eq_true, not_or] at hn
      exact hminor n (by simp [hcut]) m (by simp [hcut]) (by simpa using hn.1) hread
  · contradiction

theorem ofOperator_ne_longNumeral {word : List Char} (h : WithinDigitLimit word) (n : LongNumeral) :
    ofOperator word ≠ .error (.longNumeral n) := by
  unfold ofOperator
  split
  all_goals
    rw [Ne, Success.map_eq_error_iff]
    refine bound_ne_longNumeral (h.of_isInfix ?_) n
  case h_3 => exact List.infix_cons (List.infix_cons List.infix_rfl)
  case h_4 => exact List.infix_cons (List.infix_cons List.infix_rfl)
  case h_8 => exact List.infix_rfl
  all_goals exact List.infix_cons List.infix_rfl

theorem parse_ne_longNumeral {word : List Char} (h : WithinDigitLimit word) (n : LongNumeral) :
    parse word ≠ .error (.longNumeral n) := by
  unfold parse
  split
  · exact fun he => nomatch he
  · split
    · rename_i read hread
      obtain ⟨clause, rfl⟩ := exists_of_partialVersion?_eq_some h hread
      exact fun he => nomatch he
    · exact ofOperator_ne_longNumeral h n

end Clause

namespace Range

theorem withinDigitLimit_words {text : String} (h : WithinDigitLimit text.toList) :
    ∀ w ∈ words (normalise text.toList), WithinDigitLimit w := fun _ hw =>
  (withinDigitLimit_glue (h.of_isInfix (trim_isInfix _)) false).of_isInfix (infix_of_mem_words hw)

/-- The words of a span, with a lower end that is a version. -/
theorem parse_eq_between {text : String} {low : Version} {high : String}
    (h : parse text = .ok (.between low high)) : ∃ w w',
      words (normalise text.toList) = [w, ['-'], w'] ∧
        Clause.bound (String.ofList w) = .ok low ∧ high = String.ofList w' := by
  unfold parse at h
  generalize words (normalise text.toList) = ws at h ⊢
  unfold ofWords at h
  split at h
  · exact nomatch h
  · rename_i w w'
    obtain ⟨v, hv, h⟩ := Success.bind_eq_ok_iff.1 h
    obtain ⟨rfl, rfl⟩ := Range.between.inj (Except.ok.inj h)
    exact ⟨w, w', rfl, hv, rfl⟩
  · cases hparse : ws.mapM Clause.parse with
    | error e =>
      rw [hparse] at h
      exact nomatch h
    | ok clauses =>
      rw [hparse] at h
      exact nomatch h

theorem parse_ne_longNumeral {text : String} (h : WithinDigitLimit text.toList) (n : LongNumeral) :
    parse text ≠ .error (.longNumeral n) := by
  have hwords := withinDigitLimit_words h
  unfold parse
  generalize words (normalise text.toList) = ws at hwords
  unfold ofWords
  split
  · exact fun he => nomatch he
  · rename_i w w'
    intro he
    rcases Success.bind_eq_error_iff.1 he with he | ⟨v, -, he⟩
    · exact Clause.bound_ne_longNumeral (hwords w (by simp)) n he
    · exact nomatch he
  · rename_i ws _ _
    rw [Ne, Success.map_eq_error_iff]
    intro he
    obtain ⟨w, hw, he⟩ := Success.exists_of_mapM_eq_error he
    exact Clause.parse_ne_longNumeral (hwords w hw) n he

theorem exists_candidate {version : String} (h : WithinDigitLimit version.toList) :
    ∃ c, candidate version = .ok c := by
  have htrim : WithinDigitLimit (trimString version).toList := by
    rw [trimString, String.toList_ofList]
    exact h.of_isInfix (trim_isInfix _)
  unfold candidate
  split
  · exact ⟨_, rfl⟩
  · exact ⟨_, rfl⟩
  · rename_i n hn
    exact absurd hn (Version.parse_ne_longNumeral (Version.not_hasLongNumeral htrim) n)

/-- Admitting fails only behind the lower end of a span. -/
theorem admits_eq_error_iff {range : Range} {c : Option Version} {e : Error} :
    range.admits c = .error e ↔ ∃ v low high, c = some v ∧ range = .between low high ∧
      v.precedence low ≠ .lt ∧ Clause.bound high = .error e := by
  constructor
  · intro h
    cases c with
    | none => cases range <;> exact nomatch h
    | some v =>
      cases range with
      | all clauses => exact nomatch h
      | between low high =>
        rw [admits] at h
        split at h
        · rename_i hlow
          exact ⟨v, low, high, rfl, rfl, (Version.isGE_precedence_iff v low).1 hlow,
            Success.map_eq_error_iff.1 h⟩
        · exact nomatch h
  · rintro ⟨v, low, high, rfl, rfl, hlow, hhigh⟩
    have hreached : Comparator.atLeast.holds v low = true :=
      (Version.isGE_precedence_iff v low).2 hlow
    rw [admits, if_pos hreached, hhigh]
    rfl

theorem evaluate_eq_bind {version range : String} {c : Option Version}
    (hc : candidate version = .ok c) :
    evaluate version range = parse range >>= fun r => r.admits c := by
  unfold evaluate
  rw [hc]
  rfl

theorem evaluate_eq_error_iff {version range : String} {c : Option Version}
    (hc : candidate version = .ok c) {e : Error} :
    evaluate version range = .error e ↔ parse range = .error e ∨
      ∃ v low high, c = some v ∧ parse range = .ok (.between low high) ∧
        v.precedence low ≠ .lt ∧ Clause.bound high = .error e := by
  rw [evaluate_eq_bind hc, Success.bind_eq_error_iff]
  apply or_congr_right
  constructor
  · rintro ⟨r, hr, h⟩
    obtain ⟨v, low, high, hv, rfl, hfail⟩ := admits_eq_error_iff.1 h
    exact ⟨v, low, high, hv, hr, hfail⟩
  · rintro ⟨v, low, high, hv, hr, h⟩
    exact ⟨_, hr, admits_eq_error_iff.2 ⟨v, low, high, hv, rfl, h⟩⟩

/-- The candidate is refused because of the range. -/
def Unrecognised (version range : String) : Prop :=
  ∃ token, evaluate version range = .error (.malformed token)

/-- Some part of the range that is read for every candidate cannot be read. -/
def IllFormed (range : String) : Prop := ∃ token, parse range = .error (.malformed token)

/-- The range is a span from a version to a text that is not a version. -/
def HalfRead (range : String) (low : Version) : Prop :=
  ∃ high token, parse range = .ok (.between low high) ∧
    Clause.bound high = .error (.malformed token)

theorem unrecognised_iff {version range : String} {c : Option Version}
    (hc : candidate version = .ok c) :
    Unrecognised version range ↔
      IllFormed range ∨ ∃ v low, c = some v ∧ HalfRead range low ∧ v.precedence low ≠ .lt := by
  unfold Unrecognised IllFormed HalfRead
  simp only [evaluate_eq_error_iff hc, exists_or]
  apply or_congr_right
  constructor
  · rintro ⟨token, v, low, high, hv, hr, hlow, hhigh⟩
    exact ⟨v, low, hv, ⟨high, token, hr, hhigh⟩, hlow⟩
  · rintro ⟨v, low, hv, ⟨high, token, hr, hhigh⟩, hlow⟩
    exact ⟨token, v, low, high, hv, hr, hlow, hhigh⟩

theorem evaluate_ne_longNumeral {version range : String} (hversion : WithinDigitLimit version.toList)
    (hrange : WithinDigitLimit range.toList) (n : LongNumeral) :
    evaluate version range ≠ .error (.longNumeral n) := by
  obtain ⟨c, hc⟩ := exists_candidate hversion
  rw [Ne, evaluate_eq_error_iff hc]
  rintro (h | ⟨v, low, high, -, hr, -, hhigh⟩)
  · exact parse_ne_longNumeral hrange n h
  · obtain ⟨w, w', hwords, -, rfl⟩ := parse_eq_between hr
    have hw' : w' ∈ words (normalise range.toList) := by rw [hwords]; simp
    exact Clause.bound_ne_longNumeral (withinDigitLimit_words hrange w' hw') n hhigh

/-- The lower end of a span is a candidate that reaches it. -/
theorem exists_candidate_reaching {range high : String} {low : Version}
    (hrange : WithinDigitLimit range.toList) (h : parse range = .ok (.between low high)) :
    ∃ version, WithinDigitLimit version.toList ∧ candidate version = .ok (some low) := by
  obtain ⟨w, w', hwords, hlow, -⟩ := parse_eq_between h
  have hw : w ∈ words (normalise range.toList) := by rw [hwords]; simp
  refine ⟨String.ofList w, ?_, ?_⟩
  · rw [String.toList_ofList]
    exact withinDigitLimit_words hrange w hw
  · unfold candidate trimString
    rw [String.toList_ofList, trim_of_none_blank (not_blank_of_mem_words hw),
      Clause.bound_eq_ok_iff.1 hlow]

/-- All candidates agree on whether a range is recognised unless it is read in halves. -/
theorem forall_unrecognised_iff {range : String} (hrange : WithinDigitLimit range.toList) :
    (∀ v w : String, WithinDigitLimit v.toList → WithinDigitLimit w.toList →
      (Unrecognised v range ↔ Unrecognised w range)) ↔ ¬ ∃ low, HalfRead range low := by
  constructor
  · rintro hagree ⟨low, high, token, hr, hhigh⟩
    obtain ⟨v, hv, hcandidate⟩ := exists_candidate_reaching hrange hr
    have hempty : WithinDigitLimit "".toList := .of_length_le (Nat.zero_le _)
    have hnone : candidate "" = .ok none := rfl
    have hreached : Unrecognised v range := by
      rw [unrecognised_iff hcandidate]
      exact .inr ⟨low, low, rfl, ⟨high, token, hr, hhigh⟩, Version.precedence_self_ne_lt low⟩
    rcases (unrecognised_iff hnone).1 ((hagree v "" hv hempty).1 hreached) with
      ⟨token', hill⟩ | ⟨_, _, h, -⟩
    · rw [hr] at hill
      exact nomatch hill
    · exact nomatch h
  · intro hnot v w hv hw
    have hill : ∀ {version : String}, WithinDigitLimit version.toList →
        (Unrecognised version range ↔ IllFormed range) := by
      intro version hversion
      obtain ⟨c, hc⟩ := exists_candidate hversion
      rw [unrecognised_iff hc]
      refine or_iff_left ?_
      rintro ⟨_, low, -, hhalf, -⟩
      exact hnot ⟨low, hhalf⟩
    rw [hill hv, hill hw]

/-- What a range covers, by its own text or by evaluation. -/
theorem covers_cases {version range : String} (hversion : WithinDigitLimit version.toList)
    (hrange : WithinDigitLimit range.toList) :
    (Unrecognised version range ∧ covers range version = .ok (range == version)) ∨
      ∃ admitted, evaluate version range = .ok admitted ∧ covers range version = .ok admitted := by
  unfold Unrecognised covers
  cases h : evaluate version range with
  | ok admitted => exact .inr ⟨admitted, rfl, rfl⟩
  | error e =>
    cases e with
    | malformed token => exact .inl ⟨⟨token, rfl⟩, rfl⟩
    | longNumeral n => exact absurd h (evaluate_ne_longNumeral hversion hrange n)

/-- Which candidates find a range unrecognised, and what it covers then. -/
structure Recognition (range : String) : Prop where
  unrecognised : ∀ version : String, WithinDigitLimit version.toList →
    (Unrecognised version range ↔ IllFormed range ∨ ∃ v low,
      candidate version = .ok (some v) ∧ HalfRead range low ∧ v.precedence low ≠ .lt)
  covered : ∀ version : String, WithinDigitLimit version.toList →
    (Unrecognised version range ∧ covers range version = .ok (range == version)) ∨
      ∃ admitted, evaluate version range = .ok admitted ∧ covers range version = .ok admitted
  alike : (∀ v w : String, WithinDigitLimit v.toList → WithinDigitLimit w.toList →
    (Unrecognised v range ↔ Unrecognised w range)) ↔ ¬ ∃ low, HalfRead range low

/-- Ranges apart that are read in halves, a range is recognised for all candidates or for none. -/
theorem recognition (range : String) (hrange : WithinDigitLimit range.toList) :
    Recognition range := by
  refine ⟨?_, fun _ hversion => covers_cases hversion hrange, forall_unrecognised_iff hrange⟩
  intro version hversion
  obtain ⟨c, hc⟩ := exists_candidate hversion
  rw [unrecognised_iff hc, hc]
  simp only [Except.ok.injEq]

theorem withinDigitLimit_halfRead : WithinDigitLimit "1.0.0 - nope".toList :=
  .of_length_le (by decide +kernel)

theorem recognition_halfRead :
    WithinDigitLimit "1.0.0 - nope".toList ∧ Recognition "1.0.0 - nope" :=
  ⟨withinDigitLimit_halfRead, recognition _ withinDigitLimit_halfRead⟩

/-- A span without an upper end is refused for a version above its lower end and admits none below
it, and no longer covers its own text. -/
theorem halfRead_not_alike :
    (WithinDigitLimit "1.0.0 - nope".toList ∧ WithinDigitLimit "0.1.0".toList ∧
      WithinDigitLimit "2.0.0".toList) ∧
    ¬ (Unrecognised "0.1.0" "1.0.0 - nope" ↔ Unrecognised "2.0.0" "1.0.0 - nope") ∧
    covers "1.0.0 - nope" "1.0.0 - nope" = .ok false := by
  have hshort : WithinDigitLimit "0.1.0".toList ∧ WithinDigitLimit "2.0.0".toList :=
    ⟨.of_length_le (by decide +kernel), .of_length_le (by decide +kernel)⟩
  have hbelow : evaluate "0.1.0" "1.0.0 - nope" = .ok false := by decide +kernel
  have habove : evaluate "2.0.0" "1.0.0 - nope" = .error (.malformed "nope") := by decide +kernel
  refine ⟨⟨withinDigitLimit_halfRead, hshort⟩, ?_, by decide +kernel⟩
  intro halike
  obtain ⟨token, htoken⟩ := halike.2 ⟨"nope", habove⟩
  rw [hbelow] at htoken
  exact nomatch htoken

end Range
end DependencyAudit
