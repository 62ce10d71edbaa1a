import Mathlib.Data.List.TakeWhile
import DependencyAudit.Proofs.Success
import DependencyAudit.Proofs.Text.Numerals
import DependencyAudit.Proofs.Text.Words
import DependencyAudit.Version

/-!
# The shape of version texts

A text has the shape of a version if it is made of three numerals parted by points, perhaps with a
tag behind a dash, and of one line feed at most after that. It is then read unless one of the
numerals is too long; any other text is malformed.
-/

namespace DependencyAudit.Version

open Text

namespace Shape

def tagText : Option (List Char) → List Char
  | none => []
  | some tag => '-' :: tag

/-- The one text without a final line feed that has the shape. -/
def text (s : Shape) : List Char :=
  s.major ++ '.' :: (s.minor ++ '.' :: (s.patch ++ tagText s.prerelease))

structure WellFormed (s : Shape) : Prop where
  major : isNumeral s.major
  minor : isNumeral s.minor
  patch : isNumeral s.patch
  tag : ∀ tag ∈ s.prerelease, tag ≠ [] ∧ '\n' ∉ tag

/-- What a shape stands for if its numerals can be read. -/
def version (s : Shape) : Version :=
  ⟨numeralValue s.major, numeralValue s.minor, numeralValue s.patch, s.prerelease.map String.ofList⟩

end Shape

theorem component?_eq_some_iff {s digits rest : List Char} :
    component? s = some (digits, rest) ↔
      isNumeral digits ∧ s = digits ++ rest ∧ ∀ c ∈ rest.head?, ¬ isDigit c := by
  simp only [component?]
  constructor
  · intro h
    split at h
    · contradiction
    · rename_i hne
      obtain ⟨rfl, rfl⟩ := Prod.mk.inj (Option.some.inj h)
      refine ⟨(isNumeral_iff _).2 ⟨by simpa using hne, ?_⟩, ?_, ?_⟩
      · exact fun c hc => List.mem_takeWhile_imp hc
      · exact List.takeWhile_append_dropWhile.symm
      · intro c hc
        have hstop := List.head?_dropWhile_not isDigit s
        rw [hc] at hstop
        exact Bool.eq_false_iff.1 hstop
  · rintro ⟨hnumeral, rfl, hrest⟩
    obtain ⟨hne, hdigits⟩ := (isNumeral_iff digits).1 hnumeral
    rw [takeWhile_run hdigits hrest, dropWhile_run hdigits hrest]
    exact if_neg fun hempty => hne (List.isEmpty_iff.1 hempty)

theorem afterDot?_eq_some_iff {s rest : List Char} :
    afterDot? s = some rest ↔ s = '.' :: rest := by
  unfold afterDot?
  split
  · rw [Option.some.injEq, List.cons.injEq, eq_self, true_and]
  · rename_i hne
    exact iff_of_false nofun fun h => hne rest h

theorem tag?_eq_some_iff {rest : List Char} {tag : Option (List Char)} :
    tag? rest = some tag ↔
      rest = Shape.tagText tag ∧ ∀ t ∈ tag, t ≠ [] ∧ '\n' ∉ t := by
  constructor
  · intro h
    unfold tag? at h
    split at h
    · rw [← Option.some.inj h]
      exact ⟨rfl, nofun⟩
    · rename_i t
      split at h
      · rename_i ht
        rw [← Option.some.inj h]
        refine ⟨rfl, fun t' ht' => ?_⟩
        rw [← Option.some.inj ht']
        simpa using ht
      · contradiction
    · contradiction
  · rintro ⟨rfl, htag⟩
    cases tag with
    | none => rfl
    | some t =>
      obtain ⟨hne, hline⟩ := htag t rfl
      exact if_pos (by simp [hne, hline])

theorem not_isDigit_head?_dot (s : List Char) : ∀ c ∈ ('.' :: s).head?, ¬ isDigit c :=
  forall_head?_cons (by decide) s

theorem not_isDigit_head?_tagText (tag : Option (List Char)) :
    ∀ c ∈ (Shape.tagText tag).head?, ¬ isDigit c := by
  cases tag with
  | none => exact nofun
  | some t => exact forall_head?_cons (by decide) t

theorem shape?_eq_some_iff {s : List Char} {shape : Shape} :
    shape? s = some shape ↔ shape.WellFormed ∧ s = shape.text := by
  simp only [shape?, Option.bind_eq_bind, Option.bind_eq_some_iff, Prod.exists, Option.pure_def,
    Option.some.injEq, component?_eq_some_iff, afterDot?_eq_some_iff, tag?_eq_some_iff]
  constructor
  · rintro ⟨major, _, ⟨hmajor, rfl, -⟩, _, rfl, minor, _, ⟨hminor, rfl, -⟩, _, rfl, patch, _,
      ⟨hpatch, rfl, -⟩, tag, ⟨rfl, htag⟩, rfl⟩
    exact ⟨⟨hmajor, hminor, hpatch, htag⟩, rfl⟩
  · rintro ⟨⟨hmajor, hminor, hpatch, htag⟩, rfl⟩
    exact ⟨_, _, ⟨hmajor, rfl, not_isDigit_head?_dot _⟩, _, rfl, _, _,
      ⟨hminor, rfl, not_isDigit_head?_dot _⟩, _, rfl, _, _,
      ⟨hpatch, rfl, not_isDigit_head?_tagText _⟩, _, ⟨rfl, htag⟩, rfl⟩

theorem withoutFinalNewline_eq_or (s : List Char) :
    s = withoutFinalNewline s ∨ s = withoutFinalNewline s ++ ['\n'] := by
  unfold withoutFinalNewline
  split
  · rename_i hlast
    exact .inr (List.dropLast_append_getLast? '\n' hlast).symm
  · exact .inl rfl

theorem withoutFinalNewline_of_getLast? {s : List Char} (h : s.getLast? ≠ some '\n') :
    withoutFinalNewline s = s := if_neg h

theorem withoutFinalNewline_of_none_blank {s : List Char} (h : ∀ c ∈ s, ¬ isBlank c) :
    withoutFinalNewline s = s :=
  withoutFinalNewline_of_getLast? fun hlast =>
    h '\n' (List.mem_of_getLast? hlast) (by decide)

theorem withoutFinalNewline_isInfix (s : List Char) : withoutFinalNewline s <:+: s := by
  rcases withoutFinalNewline_eq_or s with h | h
  · exact ⟨[], [], by rw [List.append_nil, List.nil_append, ← h]⟩
  · exact ⟨[], ['\n'], by rw [List.nil_append, ← h]⟩

/-- Some numeral of a version text is too long to be read. -/
def HasLongNumeral (text : String) : Prop :=
  ∃ shape, shape? (withoutFinalNewline text.toList) = some shape ∧
    ∃ digits ∈ [shape.major, shape.minor, shape.patch], digitLimit < digits.length

theorem read_eq_ok_iff {shape : Shape} {v : Version} : shape.read = .ok v ↔
    (∀ digits ∈ [shape.major, shape.minor, shape.patch], digits.length ≤ digitLimit) ∧
      v = shape.version := by
  simp only [Shape.read, Success.bind_eq_ok_iff, number_eq_ok_iff, List.forall_mem_cons]
  constructor
  · rintro ⟨major, ⟨hmajor, rfl⟩, minor, ⟨hminor, rfl⟩, patch, ⟨hpatch, rfl⟩, h⟩
    exact ⟨⟨hmajor, hminor, hpatch, nofun⟩, (Except.ok.inj h).symm⟩
  · rintro ⟨⟨hmajor, hminor, hpatch, -⟩, rfl⟩
    exact ⟨_, ⟨hmajor, rfl⟩, _, ⟨hminor, rfl⟩, _, ⟨hpatch, rfl⟩, rfl⟩

theorem parse_of_shape {text : String} {shape : Shape}
    (h : shape? (withoutFinalNewline text.toList) = some shape) :
    parse text = shape.read.mapError .longNumeral := by
  unfold parse
  rw [h]

theorem parse_eq_ok_iff {text : String} {v : Version} : parse text = .ok v ↔
    ∃ shape, shape? (withoutFinalNewline text.toList) = some shape ∧
      (∀ digits ∈ [shape.major, shape.minor, shape.patch], digits.length ≤ digitLimit) ∧
      v = shape.version := by
  cases hshape : shape? (withoutFinalNewline text.toList) with
  | none =>
    unfold parse
    rw [hshape]
    exact iff_of_false nofun nofun
  | some shape =>
    rw [parse_of_shape hshape, Success.mapError_eq_ok_iff, read_eq_ok_iff]
    simp only [Option.some.injEq, exists_eq_left']

/-- A text that is read as a version starts with its three numerals. -/
theorem exists_numerals_of_parse_eq_ok {text : String} {v : Version} (h : parse text = .ok v) :
    ∃ major minor patch rest, (isNumeral major ∧ isNumeral minor ∧ isNumeral patch) ∧
      text.toList = major ++ '.' :: (minor ++ '.' :: (patch ++ rest)) := by
  obtain ⟨shape, hshape, -⟩ := parse_eq_ok_iff.1 h
  obtain ⟨hform, hs⟩ := shape?_eq_some_iff.1 hshape
  refine ⟨shape.major, shape.minor, shape.patch, ?_⟩
  rcases withoutFinalNewline_eq_or text.toList with htext | htext
  · exact ⟨_, ⟨hform.major, hform.minor, hform.patch⟩, htext.trans hs⟩
  · rw [hs] at htext
    refine ⟨Shape.tagText shape.prerelease ++ ['\n'], ⟨hform.major, hform.minor, hform.patch⟩, ?_⟩
    rw [htext]
    simp [Shape.text]

theorem exists_cons_of_parse_eq_ok {text : String} {v : Version} (h : parse text = .ok v) :
    ∃ c s, text.toList = c :: s ∧ isDigit c := by
  obtain ⟨major, minor, patch, rest, ⟨hmajor, -, -⟩, htext⟩ := exists_numerals_of_parse_eq_ok h
  obtain ⟨c, s, rfl, hc⟩ := exists_cons_of_isNumeral hmajor
  exact ⟨c, _, htext, hc⟩

/-- A release is written with digits and points. -/
theorem not_blank_of_isRelease {text : String} {v : Version} (h : parse text = .ok v)
    (hv : v.isRelease) : ∀ c ∈ withoutFinalNewline text.toList, ¬ isBlank c := by
  obtain ⟨shape, hshape, -, rfl⟩ := parse_eq_ok_iff.1 h
  obtain ⟨hform, hs⟩ := shape?_eq_some_iff.1 hshape
  have hprerelease : shape.prerelease = none := by
    rw [Shape.version, isRelease, Option.isNone_map] at hv
    exact Option.isNone_iff_eq_none.1 hv
  have hnumeral : ∀ {digits : List Char}, isNumeral digits → ∀ c ∈ digits, ¬ isBlank c :=
    fun hn c hc => not_isBlank_of_isDigit (((isNumeral_iff _).1 hn).2 c hc)
  have hdot : ¬ isBlank '.' := by decide
  rw [hs, Shape.text, hprerelease, Shape.tagText, List.append_nil]
  simp only [List.forall_mem_append, List.forall_mem_cons]
  exact ⟨hnumeral hform.major, hdot, hnumeral hform.minor, hdot, hnumeral hform.patch⟩

theorem parse_ne_longNumeral {text : String} (h : ¬ HasLongNumeral text) (n : LongNumeral) :
    parse text ≠ .error (.longNumeral n) := by
  cases hshape : shape? (withoutFinalNewline text.toList) with
  | none =>
    unfold parse
    rw [hshape]
    exact nofun
  | some shape =>
    have hread : shape.read = .ok shape.version := by
      refine read_eq_ok_iff.2 ⟨fun digits hdigits => ?_, rfl⟩
      by_contra hlong
      exact h ⟨shape, hshape, digits, hdigits, Nat.lt_of_not_le hlong⟩
    rw [parse_of_shape hshape, hread]
    exact nofun

/-- The numerals of a version text are runs of its digits. -/
theorem not_hasLongNumeral {text : String} (h : WithinDigitLimit text.toList) :
    ¬ HasLongNumeral text := by
  rintro ⟨shape, hshape, digits, hdigits, hlong⟩
  obtain ⟨hform, hs⟩ := shape?_eq_some_iff.1 hshape
  have hpart : digits <:+: withoutFinalNewline text.toList ∧ isNumeral digits := by
    rw [hs, Shape.text]
    rcases List.mem_cons.1 hdigits with rfl | hdigits
    · exact ⟨(List.prefix_append _ _).isInfix, hform.major⟩
    rcases List.mem_cons.1 hdigits with rfl | hdigits
    · exact ⟨⟨shape.major ++ ['.'], '.' :: (shape.patch ++ Shape.tagText shape.prerelease),
        by simp⟩, hform.minor⟩
    · rw [List.mem_singleton.1 hdigits]
      exact ⟨⟨shape.major ++ '.' :: (shape.minor ++ ['.']), Shape.tagText shape.prerelease,
        by simp⟩, hform.patch⟩
  have hshort := h.length_le (hpart.1.trans (withoutFinalNewline_isInfix _)) hpart.2
  omega

end DependencyAudit.Version
