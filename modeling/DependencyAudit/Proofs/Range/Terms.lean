import DependencyAudit.Proofs.Range.Gluing
import DependencyAudit.Proofs.Range.Grammar
import DependencyAudit.Proofs.Version.Shape

/-!
# Reading a term

The operator and the operand of a term, put together, are read as one clause, and that clause admits
what the term admits. A word that starts with a digit and has numerals in its first three parts is
not taken for a partial version.
-/

namespace DependencyAudit

namespace Text

theorem exists_cut_cons (separates : Char → Bool) {c : Char} (h : ¬ separates c) (s : List Char) :
    ∃ part parts, cut separates (c :: s) = (c :: part) :: parts := by
  rw [cut_cons_of_not_separates h]
  cases cut separates s with
  | nil => exact ⟨[], [], rfl⟩
  | cons part parts => exact ⟨part, parts, rfl⟩

theorem not_dot_of_isNumeral {s : List Char} (h : isNumeral s) : ∀ c ∈ s, ¬ (c == '.') = true := by
  intro c hc
  have hne : c ≠ '.' := ne_of_isDigit (((isNumeral_iff s).1 h).2 c hc) rfl
  simpa using hne

end Text

namespace Clause

open Text

theorem isWildcard_cons {c : Char} (h : c ≠ '*' ∧ c ≠ 'x' ∧ c ≠ 'X') (s : List Char) :
    isWildcard (c :: s) = false := by
  simp [isWildcard, h]

theorem isWildcard_cons_of_isDigit {c : Char} (h : isDigit c) (s : List Char) :
    isWildcard (c :: s) = false :=
  isWildcard_cons ⟨ne_of_isDigit h rfl, ne_of_isDigit h rfl, ne_of_isDigit h rfl⟩ s

/-- A partial version starts with a digit. -/
theorem partialVersion?_of_not_isDigit {c : Char} (hdot : c ≠ '.') (hc : ¬ isDigit c)
    (s : List Char) : partialVersion? (c :: s) = none := by
  obtain ⟨part, parts, hcut⟩ := exists_cut_cons (· == '.') (by simpa using hdot) s
  have hpart : isNumeral (c :: part) = false := isNumeral_cons_of_not_isDigit hc part
  unfold partialVersion?
  rw [hcut]
  rcases parts with _ | ⟨m, _ | ⟨p, _ | ⟨q, parts⟩⟩⟩ <;> simp [hpart]

/-- The third part of a partial version is a wildcard. -/
theorem partialVersion?_of_three_numerals {major minor patch : List Char} (hmajor : isNumeral major)
    (hminor : isNumeral minor) (hpatch : isNumeral patch) (rest : List Char) :
    partialVersion? (major ++ '.' :: (minor ++ '.' :: (patch ++ rest))) = none := by
  obtain ⟨c, t, rfl, hc⟩ := exists_cons_of_isNumeral hpatch
  have hdot : c ≠ '.' := ne_of_isDigit hc rfl
  obtain ⟨part, parts, hlast⟩ :=
    exists_cut_cons (· == '.') (by simpa using hdot) (t ++ rest)
  have hcut : cut (· == '.') (major ++ '.' :: (minor ++ '.' :: (c :: t ++ rest))) =
      major :: minor :: (c :: part) :: parts := by
    rw [cut_append_cons (by rfl), cut_of_none_separates (not_dot_of_isNumeral hmajor),
      cut_append_cons (by rfl), cut_of_none_separates (not_dot_of_isNumeral hminor)]
    exact congrArg (fun l => major :: minor :: l) hlast
  unfold partialVersion?
  rw [hcut]
  cases parts <;> simp [isWildcard_cons_of_isDigit hc]

theorem parse_of_partialVersion?_eq_none {c : Char} {s : List Char}
    (hc : c ≠ '*' ∧ c ≠ 'x' ∧ c ≠ 'X') (h : partialVersion? (c :: s) = none) :
    parse (c :: s) = ofOperator (c :: s) := by
  unfold parse
  rw [isWildcard_cons hc, h]
  rfl

theorem parse_of_isOperator {o : Char} (h : Range.isOperator o) (s : List Char) :
    parse (o :: s) = ofOperator (o :: s) := by
  have hmark : (o ≠ '*' ∧ o ≠ 'x' ∧ o ≠ 'X') ∧ o ≠ '.' ∧ ¬ isDigit o := by
    rcases (Range.isOperator_iff o).1 h with rfl | rfl | rfl | rfl | rfl <;> decide
  exact parse_of_partialVersion?_eq_none hmark.1
    (partialVersion?_of_not_isDigit hmark.2.1 hmark.2.2 s)

theorem ofOperator_above {c : Char} (h : c ≠ '=') (s : List Char) :
    ofOperator ('>' :: c :: s) = comparison .above <$> bound (String.ofList (c :: s)) := by
  unfold ofOperator
  split
  case h_3 ht => exact absurd (List.cons.inj (List.cons.inj ht).2).1 h
  case h_5 ht => rw [(List.cons.inj ht).2]
  case h_8 hne _ _ => exact absurd rfl (hne _)
  all_goals
    rename_i ht
    exact absurd (List.cons.inj ht).1 (by decide)

theorem ofOperator_below {c : Char} (h : c ≠ '=') (s : List Char) :
    ofOperator ('<' :: c :: s) = comparison .below <$> bound (String.ofList (c :: s)) := by
  unfold ofOperator
  split
  case h_4 ht => exact absurd (List.cons.inj (List.cons.inj ht).2).1 h
  case h_6 ht => rw [(List.cons.inj ht).2]
  case h_8 hne _ => exact absurd rfl (hne _)
  all_goals
    rename_i ht
    exact absurd (List.cons.inj ht).1 (by decide)

theorem ofOperator_bare {c : Char} (h : ¬ Range.isOperator c) (s : List Char) :
    ofOperator (c :: s) = comparison .equal <$> bound (String.ofList (c :: s)) := by
  have hne : ∀ o, Range.isOperator o → c ≠ o := fun o ho hc => h (hc ▸ ho)
  unfold ofOperator
  split
  case h_8 => rfl
  all_goals
    rename_i ht
    exact absurd (List.cons.inj ht).1 (hne _ rfl)

section

variable {s : List Char} {v : Version}

theorem bound_eq_ok_iff {token : String} : bound token = .ok v ↔ Version.parse token = .ok v := by
  unfold bound
  split
  · rename_i v' hv
    rw [hv, Except.ok.injEq, Except.ok.injEq]
  all_goals
    rename_i hv
    rw [hv]
    exact iff_of_false nofun nofun

theorem exists_cons_of_version (h : Version.parse (String.ofList s) = .ok v) :
    ∃ c t, s = c :: t ∧ isDigit c := by
  simpa using Version.exists_cons_of_parse_eq_ok h

theorem parse_caret (h : Version.parse (String.ofList s) = .ok v) :
    parse ('^' :: s) = .ok (.caret v) := by
  have hread : ofOperator ('^' :: s) = .ok (.caret v) :=
    congrArg (caret <$> ·) (bound_eq_ok_iff.2 h)
  exact (parse_of_isOperator rfl _).trans hread

theorem parse_tilde (h : Version.parse (String.ofList s) = .ok v) :
    parse ('~' :: s) = .ok (.tilde v) := by
  have hread : ofOperator ('~' :: s) = .ok (.tilde v) :=
    congrArg (tilde <$> ·) (bound_eq_ok_iff.2 h)
  exact (parse_of_isOperator rfl _).trans hread

theorem parse_comparison (comparator : Comparator) (h : Version.parse (String.ofList s) = .ok v) :
    parse (Range.Grammar.comparatorText comparator ++ s) = .ok (.comparison comparator v) := by
  have hread : comparison comparator <$> bound (String.ofList s) =
      .ok (.comparison comparator v) := by
    rw [bound_eq_ok_iff.2 h]
    rfl
  obtain ⟨c, t, rfl, hc⟩ := exists_cons_of_version h
  have hne : c ≠ '=' := ne_of_isDigit hc rfl
  rw [← hread]
  cases comparator with
  | atLeast => exact parse_of_isOperator rfl _
  | atMost => exact parse_of_isOperator rfl _
  | above => exact (parse_of_isOperator rfl _).trans (ofOperator_above hne t)
  | below => exact (parse_of_isOperator rfl _).trans (ofOperator_below hne t)
  | equal => exact parse_of_isOperator rfl _

theorem parse_bare (h : Version.parse (String.ofList s) = .ok v) :
    parse s = .ok (.comparison .equal v) := by
  obtain ⟨major, minor, patch, rest, ⟨hmajor, hminor, hpatch⟩, htext⟩ :=
    Version.exists_numerals_of_parse_eq_ok h
  have hpartial : partialVersion? s = none := by
    rw [String.toList_ofList] at htext
    rw [htext]
    exact partialVersion?_of_three_numerals hmajor hminor hpatch rest
  have hbound := bound_eq_ok_iff.2 h
  obtain ⟨c, t, rfl, hc⟩ := exists_cons_of_version h
  have hmark : c ≠ '*' ∧ c ≠ 'x' ∧ c ≠ 'X' :=
    ⟨ne_of_isDigit hc rfl, ne_of_isDigit hc rfl, ne_of_isDigit hc rfl⟩
  rw [parse_of_partialVersion?_eq_none hmark hpartial,
    ofOperator_bare (Range.not_isOperator_of_isDigit hc), hbound]
  rfl

end

end Clause

namespace Range.Grammar

open Text Version

theorem VersionToken.exists_cons (t : VersionToken) : ∃ c s, t.text = c :: s ∧ isDigit c :=
  Clause.exists_cons_of_version t.parse_text

theorem VersionToken.bound_text (t : VersionToken) :
    Clause.bound (String.ofList t.text) = .ok t.version := Clause.bound_eq_ok_iff.2 t.parse_text

namespace Term

def word (t : Term) : List Char := t.operator ++ t.operand

/-- The clause that a term is read as. -/
def clause : Term → Clause
  | wildcard _ => .any
  | major n _ _ => .major n.value
  | minor n m _ _ => .minor n.value m.value
  | caret t => .caret t.version
  | tilde t => .tilde t.version
  | comparison comparator t => .comparison comparator t.version
  | bare t => .comparison .equal t.version

theorem cut_dotted {first : List Char} {rest : List (List Char)}
    (hfirst : ∀ c ∈ first, ¬ (c == '.') = true)
    (hrest : ∀ part ∈ rest, ∀ c ∈ part, ¬ (c == '.') = true) :
    cut (· == '.') (dotted first rest) = first :: rest := by
  induction rest generalizing first with
  | nil =>
    rw [dotted, List.flatMap_nil, List.append_nil]
    exact cut_of_none_separates hfirst
  | cons part rest ih =>
    rw [List.forall_mem_cons] at hrest
    have hdotted : dotted first (part :: rest) = first ++ '.' :: dotted part rest := by
      simp [dotted]
    rw [hdotted, cut_append_cons (by rfl), cut_of_none_separates hfirst, ih hrest.1 hrest.2]
    rfl

theorem not_dot_of_mem_fillParts (fill : List Wildcard) :
    ∀ part ∈ fillParts fill, ∀ c ∈ part, ¬ (c == '.') = true := by
  intro part hpart c hc
  obtain ⟨w, -, rfl⟩ := List.mem_map.1 hpart
  rw [List.mem_singleton.1 hc]
  cases w <;> decide

theorem isWildcard_char (w : Wildcard) : Clause.isWildcard [w.char] := by
  cases w <;> rfl

theorem isWildcard_of_isNumeral {n : List Char} (h : isNumeral n) :
    Clause.isWildcard n = false := by
  obtain ⟨c, t, hn, hc⟩ := exists_cons_of_isNumeral h
  rw [hn]
  exact Clause.isWildcard_cons_of_isDigit hc t

theorem number_digits (n : Numeral) : number n.digits = .ok n.value :=
  number_of_length_le n.length_le

theorem partialVersion?_major {n : List Char} (hn : isNumeral n) {fill : List Wildcard}
    (h : fill.length ≤ 2) :
    Clause.partialVersion? (dotted n (fillParts fill)) = some (.major <$> number n) := by
  have hcut := cut_dotted (not_dot_of_isNumeral hn) (not_dot_of_mem_fillParts fill)
  unfold Clause.partialVersion?
  rw [hcut]
  match fill, h with
  | [], _ => simp [fillParts, hn]
  | [w], _ => simp [fillParts, hn, isWildcard_char]
  | [w, w'], _ => simp [fillParts, hn, isWildcard_char]

theorem partialVersion?_minor {n m : List Char} (hn : isNumeral n) (hm : isNumeral m)
    {fill : List Wildcard} (h : fill.length ≤ 1) :
    Clause.partialVersion? (dotted n (m :: fillParts fill)) =
      some (.minor <$> number n <*> number m) := by
  have hrest : ∀ part ∈ m :: fillParts fill, ∀ c ∈ part, ¬ (c == '.') = true :=
    List.forall_mem_cons.2 ⟨not_dot_of_isNumeral hm, not_dot_of_mem_fillParts fill⟩
  have hcut := cut_dotted (not_dot_of_isNumeral hn) hrest
  unfold Clause.partialVersion?
  rw [hcut]
  match fill, h with
  | [], _ => simp [fillParts, hn, hm, isWildcard_of_isNumeral hm]
  | [w], _ => simp [fillParts, hn, hm, isWildcard_of_isNumeral hm, isWildcard_char]

theorem parse_dotted {c : Char} (hc : isDigit c) {first : List Char} {rest : List (List Char)}
    {clause : Clause} (h : Clause.partialVersion? (dotted (c :: first) rest) = some (.ok clause)) :
    Clause.parse (dotted (c :: first) rest) = .ok clause := by
  have hwild : Clause.isWildcard (dotted (c :: first) rest) = false :=
    Clause.isWildcard_cons_of_isDigit hc _
  unfold Clause.parse
  rw [hwild, h]
  rfl

/-- The word of a term is read as its clause. -/
theorem parse_word (t : Term) : Clause.parse t.word = .ok t.clause := by
  cases t with
  | wildcard w => cases w <;> rfl
  | major n fill h =>
    have hpartial := partialVersion?_major n.isNumeral_digits h
    rw [number_digits] at hpartial
    obtain ⟨c, s, hn, hc⟩ := exists_cons_of_isNumeral n.isNumeral_digits
    change Clause.parse (dotted n.digits (fillParts fill)) = _
    rw [hn] at hpartial ⊢
    exact parse_dotted hc hpartial
  | minor n m fill h =>
    have hpartial := partialVersion?_minor n.isNumeral_digits m.isNumeral_digits h
    rw [number_digits, number_digits] at hpartial
    obtain ⟨c, s, hn, hc⟩ := exists_cons_of_isNumeral n.isNumeral_digits
    change Clause.parse (dotted n.digits (m.digits :: fillParts fill)) = _
    rw [hn] at hpartial ⊢
    exact parse_dotted hc hpartial
  | caret t => exact Clause.parse_caret t.parse_text
  | tilde t => exact Clause.parse_tilde t.parse_text
  | comparison comparator t => exact Clause.parse_comparison comparator t.parse_text
  | bare t => exact Clause.parse_bare t.parse_text

theorem admits_major (v : Version) (n : Nat) :
    (Clause.major n).admits v ↔ v.InWindow (release n 0 0) (release (n + 1) 0 0) := by
  simp only [Clause.admits, InWindow, Bool.and_eq_true, beq_iff_eq]
  apply and_congr_right
  intro h
  simp only [ne_eq, precedence_eq_lt_iff_of_isRelease h, release]
  omega

theorem admits_minor (v : Version) (n m : Nat) :
    (Clause.minor n m).admits v ↔ v.InWindow (release n m 0) (release n (m + 1) 0) := by
  simp only [Clause.admits, InWindow, Bool.and_eq_true, beq_iff_eq, and_assoc]
  apply and_congr_right
  intro h
  simp only [ne_eq, precedence_eq_lt_iff_of_isRelease h, release]
  omega

theorem admits_tilde (v base : Version) :
    (Clause.tilde base).admits v ↔ v.InWindow base (tildeEnd base) := by
  simp only [Clause.admits, InWindow, Bool.and_eq_true, beq_iff_eq, decide_eq_true_eq, and_assoc]
  apply and_congr_right
  intro h
  simp only [ne_eq, precedence_eq_lt_iff_of_isRelease h, tildeEnd, release]
  omega

theorem caretEnd_of_major {base : Version} (h : 0 < base.major) :
    caretEnd base = release (base.major + 1) 0 0 := if_pos h

theorem caretEnd_of_minor {base : Version} (hmajor : base.major = 0) (h : 0 < base.minor) :
    caretEnd base = release 0 (base.minor + 1) 0 := by
  rw [caretEnd, if_neg (by omega), if_pos h]

theorem caretEnd_of_patch {base : Version} (hmajor : base.major = 0) (hminor : base.minor = 0) :
    caretEnd base = release 0 0 (base.patch + 1) := by
  rw [caretEnd, if_neg (by omega), if_neg (by omega)]

theorem admits_caret (v base : Version) :
    (Clause.caret base).admits v ↔ v.InWindow base (caretEnd base) := by
  refine Bool.and_eq_true_iff.trans (and_congr_right fun h => ?_)
  simp only [ne_eq, precedence_eq_lt_iff_of_isRelease h]
  rcases Nat.eq_zero_or_pos base.major with hmajor | hmajor
  · rcases Nat.eq_zero_or_pos base.minor with hminor | hminor
    · simp only [caretEnd_of_patch hmajor hminor, release, sameRelease, hmajor, hminor,
        beq_self_eq_true, Bool.and_self, if_true, Bool.and_eq_true, beq_iff_eq]
      omega
    · have hne : (base.minor == 0) = false := beq_eq_false_iff_ne.2 (by omega)
      simp only [caretEnd_of_minor hmajor hminor, release, hmajor, hne, beq_self_eq_true,
        Bool.and_false, Bool.false_eq_true, if_true, if_false, Bool.and_eq_true, beq_iff_eq,
        decide_eq_true_eq]
      omega
  · have hne : (base.major == 0) = false := beq_eq_false_iff_ne.2 (by omega)
    simp only [caretEnd_of_major hmajor, release, hne, Bool.false_and, Bool.false_eq_true, if_false,
      Bool.and_eq_true, beq_iff_eq, isGE_precedence_iff, ne_eq, precedence_eq_lt_iff_of_isRelease h]
    omega

theorem holds_iff (comparator : Comparator) (v bound : Version) :
    comparator.holds v bound ↔ Comparison comparator v bound := by
  cases comparator with
  | equal => exact beq_iff_eq
  | _ =>
    simp only [Comparator.holds, Comparison]
    cases v.precedence bound <;> decide

theorem admits_clause (t : Term) (v : Version) : t.clause.admits v ↔ t.Admits v := by
  cases t with
  | wildcard w => exact Iff.rfl
  | major n fill h => exact admits_major v n.value
  | minor n m fill h => exact admits_minor v n.value m.value
  | caret t => exact admits_caret v t.version
  | tilde t => exact admits_tilde v t.version
  | comparison comparator t => exact holds_iff comparator v t.version
  | bare t => exact beq_iff_eq

end Term
end Range.Grammar
end DependencyAudit
