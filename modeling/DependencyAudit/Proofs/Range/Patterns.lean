import DependencyAudit.Proofs.Range.Denotation

/-!
# Patterns of ranges

Three patterns take a text apart from its left end: the partial versions with one and with two
numbers, and the span. A final line feed is passed over, as everywhere. On a text without blanks at
its ends they fit just what the reader of clauses and the words of the text say.
-/

namespace DependencyAudit.Range

open Text Version Grammar Term

/-- Points, each with a wildcard behind it, at most `n` of them. -/
def isFill : Nat → List Char → Bool
  | _, [] => true
  | n + 1, '.' :: c :: rest => Clause.isWildcard [c] && isFill n rest
  | _, _ => false

def majorPattern? (s : List Char) : Option (List Char) := do
  let (n, rest) ← component? (withoutFinalNewline s)
  if isFill 2 rest then some n else none

def minorPattern? (s : List Char) : Option (List Char × List Char) := do
  let (n, rest) ← component? (withoutFinalNewline s)
  let (m, rest) ← component? (← afterDot? rest)
  if isFill 1 rest then some (n, m) else none

/-- The first word of a text that starts with one, and what follows it. -/
def word? (s : List Char) : Option (List Char × List Char) :=
  let word := s.takeWhile (! isBlank ·)
  if word.isEmpty then none else some (word, s.dropWhile (! isBlank ·))

def afterGap? (s : List Char) : Option (List Char) :=
  if s.head?.any isBlank then some (trimLeft s) else none

def afterDash? : List Char → Option (List Char)
  | '-' :: rest => some rest
  | _ => none

def spanPattern? (s : List Char) : Option (List Char × List Char) := do
  let (low, rest) ← word? (withoutFinalNewline s)
  let (high, rest) ← word? (← afterGap? (← afterDash? (← afterGap? rest)))
  if rest.isEmpty then some (low, high) else none

theorem isWildcard_iff {part : List Char} :
    Clause.isWildcard part ↔ ∃ w : Wildcard, part = [w.char] := by
  constructor
  · intro h
    simp only [Clause.isWildcard, Bool.or_eq_true, beq_iff_eq] at h
    rcases h with (rfl | rfl) | rfl
    · exact ⟨.star, rfl⟩
    · exact ⟨.small, rfl⟩
    · exact ⟨.capital, rfl⟩
  · rintro ⟨w, rfl⟩
    exact isWildcard_char w

theorem isFill_iff {n : Nat} {rest : List Char} :
    isFill n rest ↔ ∃ fill : List Wildcard, fill.length ≤ n ∧
      rest = (fillParts fill).flatMap ('.' :: ·) := by
  constructor
  · intro h
    induction n, rest using isFill.induct with
    | case1 n => exact ⟨[], Nat.zero_le _, rfl⟩
    | case2 n c rest ih =>
      rw [isFill, Bool.and_eq_true] at h
      obtain ⟨w, hw⟩ := isWildcard_iff.1 h.1
      obtain ⟨fill, hlength, rfl⟩ := ih h.2
      rw [(List.cons.inj hw).1]
      exact ⟨w :: fill, Nat.succ_le_succ hlength, rfl⟩
    | case3 n rest hnil hcons =>
      rw [isFill] at h
      · exact absurd h Bool.false_ne_true
      · exact hnil
      · exact hcons
  · rintro ⟨fill, hlength, rfl⟩
    induction fill generalizing n with
    | nil => cases n <;> rfl
    | cons w fill ih =>
      obtain ⟨n, rfl⟩ := Nat.exists_eq_succ_of_ne_zero (Nat.ne_zero_of_lt hlength)
      change (Clause.isWildcard [w.char] &&
        isFill n ((fillParts fill).flatMap ('.' :: ·))) = true
      rw [isWildcard_char, Bool.true_and]
      exact ih (Nat.le_of_succ_le_succ hlength)

theorem not_isDigit_head?_of_isFill {n : Nat} {rest : List Char} (h : isFill n rest) :
    ∀ c ∈ rest.head?, ¬ isDigit c := by
  obtain ⟨fill, -, rfl⟩ := isFill_iff.1 h
  cases fill with
  | nil => exact nofun
  | cons w fill => exact not_isDigit_head?_dot _

section

variable {s : List Char} (hline : withoutFinalNewline s = s)

include hline

theorem majorPattern?_eq_some_iff {n : List Char} :
    majorPattern? s = some n ↔ isNumeral n ∧ ∃ fill : List Wildcard, fill.length ≤ 2 ∧
      s = dotted n (fillParts fill) := by
  simp only [majorPattern?, hline, Option.bind_eq_bind, Option.bind_eq_some_iff, Prod.exists,
    component?_eq_some_iff, Option.ite_none_right_eq_some, Option.some.injEq]
  constructor
  · rintro ⟨_, rest, ⟨hn, rfl, -⟩, hfill, rfl⟩
    obtain ⟨fill, hlength, rfl⟩ := isFill_iff.1 hfill
    exact ⟨hn, fill, hlength, rfl⟩
  · rintro ⟨hn, fill, hlength, rfl⟩
    have hfill : isFill 2 ((fillParts fill).flatMap ('.' :: ·)) := isFill_iff.2 ⟨fill, hlength, rfl⟩
    exact ⟨n, _, ⟨hn, rfl, not_isDigit_head?_of_isFill hfill⟩, hfill, rfl⟩

theorem minorPattern?_eq_some_iff {n m : List Char} :
    minorPattern? s = some (n, m) ↔ isNumeral n ∧ isNumeral m ∧ ∃ fill : List Wildcard,
      fill.length ≤ 1 ∧ s = dotted n (m :: fillParts fill) := by
  simp only [minorPattern?, hline, Option.bind_eq_bind, Option.bind_eq_some_iff, Prod.exists,
    component?_eq_some_iff, afterDot?_eq_some_iff, Option.ite_none_right_eq_some,
    Option.some.injEq, Prod.mk.injEq]
  constructor
  · rintro ⟨_, _, ⟨hn, rfl, -⟩, _, rfl, _, rest, ⟨hm, rfl, -⟩, hfill, rfl, rfl⟩
    obtain ⟨fill, hlength, rfl⟩ := isFill_iff.1 hfill
    exact ⟨hn, hm, fill, hlength, rfl⟩
  · rintro ⟨hn, hm, fill, hlength, rfl⟩
    have hfill : isFill 1 ((fillParts fill).flatMap ('.' :: ·)) := isFill_iff.2 ⟨fill, hlength, rfl⟩
    exact ⟨n, _, ⟨hn, rfl, not_isDigit_head?_dot _⟩, _, rfl, m, _,
      ⟨hm, rfl, not_isDigit_head?_of_isFill hfill⟩, hfill, rfl, rfl⟩

end

theorem eq_dotted_of_cut {s first : List Char} {rest : List (List Char)}
    (h : cut (· == '.') s = first :: rest) : s = dotted first rest := by
  induction s generalizing first rest with
  | nil =>
    obtain ⟨rfl, rfl⟩ := List.cons.inj h
    rfl
  | cons c s ih =>
    have hne : cut (· == '.') s ≠ [] := cut_ne_nil s
    obtain ⟨part, parts, hcut⟩ := List.exists_cons_of_ne_nil hne
    by_cases hc : (c == '.') = true
    · have hempty : cut (· == '.') (c :: s) = [] :: cut (· == '.') s :=
        cut_cons_of_separates (by exact hc) s
      rw [hempty] at h
      obtain ⟨rfl, rfl⟩ := List.cons.inj h
      rw [beq_iff_eq.1 hc, hcut]
      exact congrArg ('.' :: ·) (ih hcut)
    · have hlonger : cut (· == '.') (c :: s) = pushFront c (cut (· == '.') s) :=
        cut_cons_of_not_separates (by exact hc) s
      rw [hlonger, hcut] at h
      obtain ⟨rfl, rfl⟩ := List.cons.inj h
      exact congrArg (c :: ·) (ih hcut)

/-- What a partial version is read as, by the pattern that it fits. -/
inductive PartiallyRead : List Char → Except LongNumeral Clause → Prop
  | major {n : List Char} {fill : List Wildcard} (hn : isNumeral n) (h : fill.length ≤ 2) :
      PartiallyRead (dotted n (fillParts fill)) (.major <$> number n)
  | minor {n m : List Char} {fill : List Wildcard} (hn : isNumeral n) (hm : isNumeral m)
      (h : fill.length ≤ 1) :
      PartiallyRead (dotted n (m :: fillParts fill)) (.minor <$> number n <*> number m)

/-- The second part decides between the patterns. -/
theorem partiallyRead_behind {n m : List Char} {read : Except LongNumeral Clause}
    (fill : List Wildcard) (hfill : fill.length ≤ 1) (hn : isNumeral n)
    (h : (if Clause.isWildcard m then some (.major <$> number n)
      else if isNumeral m then some (.minor <$> number n <*> number m) else none) = some read) :
    PartiallyRead (dotted n (m :: fillParts fill)) read := by
  split at h
  · rename_i hm
    obtain ⟨w, rfl⟩ := isWildcard_iff.1 hm
    rw [← Option.some.inj h]
    exact @PartiallyRead.major n (w :: fill) hn (Nat.succ_le_succ hfill)
  · obtain ⟨hm, h⟩ := Option.ite_none_right_eq_some.1 h
    rw [← Option.some.inj h]
    exact .minor hn hm hfill

theorem partialVersion?_eq_some_iff {s : List Char} {read : Except LongNumeral Clause} :
    Clause.partialVersion? s = some read ↔ PartiallyRead s read := by
  constructor
  · intro h
    unfold Clause.partialVersion? at h
    split at h
    · rename_i n hcut
      rw [eq_dotted_of_cut hcut]
      obtain ⟨hn, h⟩ := Option.ite_none_right_eq_some.1 h
      rw [← Option.some.inj h]
      exact @PartiallyRead.major n [] hn (Nat.zero_le _)
    · rename_i n m hcut
      rw [eq_dotted_of_cut hcut]
      obtain ⟨hn, h⟩ := Option.ite_none_left_eq_some.1 h
      rw [Bool.not_eq_true', Bool.not_eq_false] at hn
      exact partiallyRead_behind [] (Nat.zero_le _) hn h
    · rename_i n m p hcut
      rw [eq_dotted_of_cut hcut]
      obtain ⟨hnp, hbehind⟩ := Option.ite_none_left_eq_some.1 h
      rw [Bool.or_eq_true, not_or, Bool.not_eq_true', Bool.not_eq_false, Bool.not_eq_true',
        Bool.not_eq_false] at hnp
      obtain ⟨w, rfl⟩ := isWildcard_iff.1 hnp.2
      exact partiallyRead_behind [w] Nat.le.refl hnp.1 hbehind
    · contradiction
  · intro h
    cases h with
    | major hn h => exact partialVersion?_major hn h
    | minor hn hm h => exact partialVersion?_minor hn hm h

theorem PartiallyRead.not_blank {s : List Char} {read : Except LongNumeral Clause}
    (h : PartiallyRead s read) : ∀ c ∈ s, ¬ isBlank c := by
  cases h with
  | major hn h => exact (closed_dotted hn (plain_fillParts _)).not_blank
  | minor hn hm h =>
    refine (closed_dotted hn ?_).not_blank
    exact List.forall_mem_cons.2 ⟨plain_of_isNumeral hm, plain_fillParts _⟩

section

variable {s : List Char} (hline : withoutFinalNewline s = s)

include hline

theorem partiallyRead_of_majorPattern? {n : List Char} (h : majorPattern? s = some n) :
    PartiallyRead s (.major <$> number n) := by
  obtain ⟨hn, fill, hlength, rfl⟩ := (majorPattern?_eq_some_iff hline).1 h
  exact .major hn hlength

theorem partiallyRead_of_minorPattern? {n m : List Char} (h : minorPattern? s = some (n, m)) :
    PartiallyRead s (.minor <$> number n <*> number m) := by
  obtain ⟨hn, hm, fill, hlength, rfl⟩ := (minorPattern?_eq_some_iff hline).1 h
  exact .minor hn hm hlength

theorem partialVersion?_eq_none_of_patterns (hmajor : majorPattern? s = none)
    (hminor : minorPattern? s = none) : Clause.partialVersion? s = none := by
  rw [Option.eq_none_iff_forall_ne_some]
  intro read hread
  cases partialVersion?_eq_some_iff.1 hread with
  | major hn h =>
    rw [(majorPattern?_eq_some_iff hline).2 ⟨hn, _, h, rfl⟩] at hmajor
    contradiction
  | minor hn hm h =>
    rw [(minorPattern?_eq_some_iff hline).2 ⟨hn, hm, _, h, rfl⟩] at hminor
    contradiction

end

theorem word?_eq_some_iff {s w rest : List Char} :
    word? s = some (w, rest) ↔ w ≠ [] ∧ (∀ c ∈ w, ¬ isBlank c) ∧ s = w ++ rest ∧
      ∀ c ∈ rest.head?, isBlank c := by
  simp only [word?]
  constructor
  · intro h
    obtain ⟨hne, h⟩ := Option.ite_none_left_eq_some.1 h
    obtain ⟨rfl, rfl⟩ := Prod.mk.inj (Option.some.inj h)
    refine ⟨fun hnil => hne (List.isEmpty_iff.2 hnil), fun c hc => ?_, ?_, fun c hc => ?_⟩
    · simpa using List.mem_takeWhile_imp hc
    · exact List.takeWhile_append_dropWhile.symm
    · have hstop := List.head?_dropWhile_not (! isBlank ·) s
      rw [hc] at hstop
      simpa using hstop
  · rintro ⟨hne, hw, rfl, hrest⟩
    have hrun : ∀ c ∈ w, (! isBlank c) = true := fun c hc => by simp [hw c hc]
    have hstop : ∀ c ∈ rest.head?, ¬ (! isBlank c) = true := fun c hc => by simp [hrest c hc]
    rw [takeWhile_run hrun hstop, dropWhile_run hrun hstop]
    exact if_neg fun hempty => hne (List.isEmpty_iff.1 hempty)

theorem afterGap?_eq_some_iff {s rest : List Char} :
    afterGap? s = some rest ↔ ∃ gap, AllBlank gap ∧ gap ≠ [] ∧ s = gap ++ rest ∧
      ∀ c ∈ rest.head?, ¬ isBlank c := by
  unfold afterGap?
  constructor
  · intro h
    obtain ⟨hblank, h⟩ := Option.ite_none_right_eq_some.1 h
    rw [← Option.some.inj h]
    refine ⟨s.takeWhile isBlank, allBlank_takeWhile s, takeWhile_isBlank_ne_nil hblank,
      (takeWhile_append_trimLeft s).symm, fun c hc => ?_⟩
    have hstop := List.head?_dropWhile_not isBlank s
    rw [← trimLeft, hc] at hstop
    exact Bool.eq_false_iff.1 hstop
  · rintro ⟨gap, hgap, hne, rfl, hrest⟩
    obtain ⟨c, gap, rfl⟩ := List.exists_cons_of_ne_nil hne
    have hc : ((c :: gap) ++ rest).head?.any isBlank := hgap.of_cons.1
    rw [if_pos hc, trimLeft_run hgap hrest]

theorem afterDash?_eq_some_iff {s rest : List Char} :
    afterDash? s = some rest ↔ s = '-' :: rest := by
  unfold afterDash?
  split
  · rw [Option.some.injEq, List.cons.injEq, eq_self, true_and]
  · rename_i hne
    exact iff_of_false nofun fun h => hne rest h

theorem words_of_word? {s w rest : List Char} (h : word? s = some (w, rest)) :
    words s = w :: words rest := by
  obtain ⟨hne, hw, rfl, hrest⟩ := word?_eq_some_iff.1 h
  cases rest with
  | nil => rw [List.append_nil, words_of_none_blank hne hw, words_nil]
  | cons c rest =>
    have hc : isBlank c := hrest c rfl
    rw [words_append_cons hc, words_cons_of_isBlank hc, words_of_none_blank hne hw,
      List.singleton_append]

theorem words_of_afterGap? {s rest : List Char} (h : afterGap? s = some rest) :
    words s = words rest := by
  obtain ⟨gap, hgap, -, rfl, -⟩ := afterGap?_eq_some_iff.1 h
  exact words_blanks_append hgap rest

/-- The first word of a text without blanks in front. -/
theorem exists_word? {s w : List Char} {ws : List (List Char)} (hs : ∀ c ∈ s.head?, ¬ isBlank c)
    (h : words s = w :: ws) : ∃ rest, word? s = some (w, rest) ∧ words rest = ws := by
  cases s with
  | nil => exact absurd h (List.cons_ne_nil w ws).symm
  | cons c s =>
    have hc : ¬ isBlank c := hs c rfl
    have hsome : ∃ first rest, word? (c :: s) = some (first, rest) := by
      refine ⟨_, _, if_neg ?_⟩
      rw [List.takeWhile_cons_of_pos (by simp [hc])]
      exact Bool.false_ne_true
    obtain ⟨first, rest, hfirst⟩ := hsome
    rw [words_of_word? hfirst] at h
    obtain ⟨rfl, rfl⟩ := List.cons.inj h
    exact ⟨rest, hfirst, rfl⟩

/-- Behind a word that is not the last one stands a gap. -/
theorem exists_afterGap? {s w rest v : List Char} {vs : List (List Char)}
    (hword : word? s = some (w, rest)) (h : words rest = v :: vs) :
    ∃ rest', afterGap? rest = some rest' ∧ words rest' = v :: vs ∧
      ∀ c ∈ rest'.head?, ¬ isBlank c := by
  obtain ⟨-, -, -, hblank⟩ := word?_eq_some_iff.1 hword
  cases rest with
  | nil => exact absurd h (List.cons_ne_nil v vs).symm
  | cons c rest =>
    have hgap : afterGap? (c :: rest) = some (trimLeft (c :: rest)) := if_pos (hblank c rfl)
    obtain ⟨-, -, -, -, hhead⟩ := afterGap?_eq_some_iff.1 hgap
    exact ⟨_, hgap, words_of_afterGap? hgap ▸ h, hhead⟩

theorem allBlank_of_words_eq_nil {s : List Char} (h : words s = []) : AllBlank s := by
  intro c hc
  by_contra hblank
  obtain ⟨w, hw, -⟩ := exists_mem_words_of_infix (List.cons_ne_nil c [])
    (List.forall_mem_singleton.2 hblank) ((List.singleton_infix_iff c s).2 hc)
  rw [h] at hw
  exact List.not_mem_nil hw

theorem withoutFinalNewline_of_trim {s : List Char} (h : trim s = s) :
    withoutFinalNewline s = s :=
  withoutFinalNewline_of_getLast? fun hlast => ((trim_eq_self_iff s).1 h).2 '\n' hlast (by decide)

/-- Nothing is left behind the last word of a text that ends in one. -/
theorem eq_nil_of_suffix {s rest : List Char} (hs : trim s = s) (hsuffix : rest <:+ s)
    (h : words rest = []) : rest = [] := by
  obtain ⟨before, rfl⟩ := hsuffix
  by_contra hne
  have hlast := List.getLast?_eq_some_getLast hne
  have hblank := allBlank_of_words_eq_nil h _ (List.mem_of_getLast? hlast)
  refine ((trim_eq_self_iff _).1 hs).2 _ ?_ hblank
  rw [List.getLast?_append_of_ne_nil _ hne]
  exact hlast

theorem spanPattern?_eq_some_iff {s low high : List Char} (hs : trim s = s) :
    spanPattern? s = some (low, high) ↔ words s = [low, ['-'], high] := by
  simp only [spanPattern?, withoutFinalNewline_of_trim hs, Option.bind_eq_bind,
    Option.bind_eq_some_iff, Prod.exists, Option.ite_none_right_eq_some, Option.some.injEq,
    Prod.mk.injEq, List.isEmpty_iff, afterDash?_eq_some_iff]
  constructor
  · rintro ⟨_, behindLow, hlow, dashed, hdashed, behindDash, rfl, rest, hrest, _, _, hhigh, rfl,
      rfl, rfl⟩
    have hdash : word? ('-' :: behindDash) = some (['-'], behindDash) := by
      obtain ⟨gap, hgap, hne, rfl, -⟩ := afterGap?_eq_some_iff.1 hrest
      obtain ⟨c, gap, rfl⟩ := List.exists_cons_of_ne_nil hne
      refine word?_eq_some_iff.2 ⟨List.cons_ne_nil _ _, ?_, rfl, ?_⟩
      · exact List.forall_mem_singleton.2 (by decide)
      · exact forall_head?_cons hgap.of_cons.1 _
    rw [words_of_word? hlow, words_of_afterGap? hdashed, words_of_word? hdash,
      words_of_afterGap? hrest, words_of_word? hhigh, words_nil]
  · intro h
    obtain ⟨behindLow, hlow, hwords⟩ := exists_word? ((trim_eq_self_iff s).1 hs).1 h
    obtain ⟨dashed, hdashed, hwords, hhead⟩ := exists_afterGap? hlow hwords
    obtain ⟨behindDash, hdash, hwords⟩ := exists_word? hhead hwords
    obtain ⟨rest, hrest, hwords, hhead⟩ := exists_afterGap? hdash hwords
    obtain ⟨behindHigh, hhigh, hnone⟩ := exists_word? hhead hwords
    obtain ⟨-, -, rfl, -⟩ := word?_eq_some_iff.1 hdash
    have hend : behindHigh = [] := by
      obtain ⟨-, -, rfl, -⟩ := word?_eq_some_iff.1 hlow
      obtain ⟨gap, -, -, rfl, -⟩ := afterGap?_eq_some_iff.1 hdashed
      obtain ⟨gap', -, -, rfl, -⟩ := afterGap?_eq_some_iff.1 hrest
      obtain ⟨-, -, rfl, -⟩ := word?_eq_some_iff.1 hhigh
      refine eq_nil_of_suffix hs ⟨low ++ (gap ++ (['-'] ++ (gap' ++ high))), ?_⟩ hnone
      simp only [List.append_assoc]
    exact ⟨low, behindLow, hlow, _, hdashed, behindDash, rfl, rest, hrest, high, behindHigh, hhigh,
      hend, rfl, rfl⟩

end DependencyAudit.Range
