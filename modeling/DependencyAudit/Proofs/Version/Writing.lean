import DependencyAudit.Proofs.Text.DecimalText
import DependencyAudit.Proofs.Version.Shape

/-!
# Versions in writing

A text spells a shape if it is the text of the shape, with one final line feed or without. Each text
spells one shape at most, and it is read just in case it spells one whose numerals keep to the
limit. What is written for a version is read back, and it is the text that was read if nothing of
that can be written in another way.
-/

namespace DependencyAudit.Version

open Text

variable {text : String} {shape : Shape} {v : Version}

namespace Shape

structure Spells (shape : Shape) (text : String) : Prop where
  wellFormed : shape.WellFormed
  toList_eq_or : text.toList = shape.text ∨ text.toList = shape.text ++ ['\n']

theorem WellFormed.newline_not_mem (h : shape.WellFormed) : '\n' ∉ shape.text := by
  have hnumeral : ∀ {digits : List Char}, isNumeral digits → '\n' ∉ digits :=
    fun hn hmem => ne_of_isDigit (((isNumeral_iff _).1 hn).2 _ hmem) (by decide) rfl
  have htag : '\n' ∉ tagText shape.prerelease := by
    cases htag : shape.prerelease with
    | none => exact List.not_mem_nil
    | some tag =>
      rw [tagText, List.mem_cons, not_or]
      exact ⟨by decide, (h.tag tag htag).2⟩
  simp only [Shape.text, List.mem_append, List.mem_cons, not_or]
  exact ⟨hnumeral h.major, by decide, hnumeral h.minor, by decide, hnumeral h.patch, htag⟩

theorem WellFormed.getLast?_text (h : shape.WellFormed) : shape.text.getLast? ≠ some '\n' :=
  fun hlast => h.newline_not_mem (List.mem_of_getLast? hlast)

theorem spells_iff : shape.Spells text ↔
    shape? (withoutFinalNewline text.toList) = some shape := by
  rw [shape?_eq_some_iff]
  constructor
  · rintro ⟨hform, htext⟩
    refine ⟨hform, ?_⟩
    rcases htext with htext | htext
    · rw [htext, withoutFinalNewline_of_getLast? hform.getLast?_text]
    · rw [htext, withoutFinalNewline, if_pos List.getLast?_concat, List.dropLast_concat]
  · rintro ⟨hform, htext⟩
    exact ⟨hform, htext ▸ withoutFinalNewline_eq_or text.toList⟩

theorem Spells.unique {shape' : Shape} (h : shape.Spells text) (h' : shape'.Spells text) :
    shape = shape' := Option.some.inj ((spells_iff.1 h).symm.trans (spells_iff.1 h'))

/-- The shape of what is written for a version. -/
def ofVersion (v : Version) : Shape :=
  ⟨Nat.toDigits 10 v.major, Nat.toDigits 10 v.minor, Nat.toDigits 10 v.patch,
    v.prerelease.map String.toList⟩

theorem version_ofVersion (v : Version) : (ofVersion v).version = v := by
  cases v
  simp [ofVersion, version, numeralValue_toDigits, Function.comp_def]

theorem ofVersion_version (hform : shape.WellFormed)
    (h : ∀ digits ∈ [shape.major, shape.minor, shape.patch], Canonical digits) :
    ofVersion shape.version = shape := by
  obtain ⟨hmajor, hminor, hpatch, -⟩ := List.forall_mem_cons.1 h |>.imp_right fun h =>
    List.forall_mem_cons.1 h |>.imp_right List.forall_mem_cons.1
  cases shape
  simp only [ofVersion, version, toDigits_numeralValue hform.major hmajor,
    toDigits_numeralValue hform.minor hminor, toDigits_numeralValue hform.patch hpatch,
    Option.map_map, Function.comp_def, String.toList_ofList, Option.map_id']

theorem canonical_ofVersion (v : Version) : ∀ digits ∈
    [(ofVersion v).major, (ofVersion v).minor, (ofVersion v).patch], Canonical digits := by
  simp only [List.forall_mem_cons]
  exact ⟨canonical_toDigits _, canonical_toDigits _, canonical_toDigits _, nofun⟩

theorem WellFormed.ofVersion (h : shape.WellFormed) : (ofVersion shape.version).WellFormed where
  major := isNumeral_toDigits _
  minor := isNumeral_toDigits _
  patch := isNumeral_toDigits _
  tag := by
    simpa [Shape.ofVersion, version, Function.comp_def] using h.tag

end Shape

theorem toList_text (v : Version) : v.text.toList = (Shape.ofVersion v).text := by
  have hdot : (toString ".").toList = ['.'] := rfl
  cases h : v.prerelease <;> simp [text, Shape.text, Shape.ofVersion, Shape.tagText, h, hdot]

theorem exists_longNumeral_iff :
    (∃ n, parse text = .error (.longNumeral n)) ↔ HasLongNumeral text := by
  refine ⟨?_, fun h => ?_⟩
  · rintro ⟨n, hn⟩
    by_contra hshort
    exact parse_ne_longNumeral hshort n hn
  · obtain ⟨shape, hshape, digits, hdigits, hlong⟩ := h
    rw [parse_of_shape hshape]
    cases hread : shape.read with
    | error n => exact ⟨n, rfl⟩
    | ok v =>
      have hshort := (read_eq_ok_iff.1 hread).1 digits hdigits
      omega

theorem parse_eq_malformed_iff :
    parse text = .error (.malformed text) ↔ ¬ ∃ shape : Shape, shape.Spells text := by
  simp only [Shape.spells_iff]
  cases hshape : shape? (withoutFinalNewline text.toList) with
  | none =>
    unfold parse
    rw [hshape]
    exact iff_of_true rfl nofun
  | some shape =>
    rw [parse_of_shape hshape]
    refine iff_of_false ?_ (not_not_intro ⟨shape, rfl⟩)
    cases shape.read <;> exact nofun

theorem parse_cons_of_not_isDigit {c : Char} (hc : ¬ isDigit c) (s : List Char) :
    parse (String.ofList (c :: s)) = .error (.malformed (String.ofList (c :: s))) := by
  rw [parse_eq_malformed_iff]
  rintro ⟨shape, hspells⟩
  obtain ⟨d, t, hmajor, hd⟩ := exists_cons_of_isNumeral hspells.wellFormed.major
  have htext := hspells.toList_eq_or
  rw [String.toList_ofList, Shape.text, hmajor] at htext
  have hhead : c = d := htext.elim (fun h => (List.cons.inj h).1) fun h => (List.cons.inj h).1
  exact hc (hhead ▸ hd)

theorem parse_text (h : parse text = .ok v) : parse v.text = .ok v := by
  obtain ⟨shape, hshape, hshort, rfl⟩ := parse_eq_ok_iff.1 h
  obtain ⟨hform, -⟩ := shape?_eq_some_iff.1 hshape
  have hspells : (Shape.ofVersion shape.version).Spells shape.version.text :=
    ⟨hform.ofVersion, .inl (toList_text _)⟩
  refine parse_eq_ok_iff.2 ⟨_, Shape.spells_iff.1 hspells, ?_, (Shape.version_ofVersion _).symm⟩
  simp only [List.forall_mem_cons] at hshort ⊢
  have hlength : ∀ {digits : List Char}, isNumeral digits → digits.length ≤ digitLimit →
      (Nat.toDigits 10 (numeralValue digits)).length ≤ digitLimit := fun hn hle =>
    (length_toDigits_numeralValue_le ((isNumeral_iff _).1 hn).1).trans hle
  exact ⟨hlength hform.major hshort.1, hlength hform.minor hshort.2.1,
    hlength hform.patch hshort.2.2.1, nofun⟩

theorem text_eq_iff (hspells : shape.Spells text) : shape.version.text = text ↔
    (∀ digits ∈ [shape.major, shape.minor, shape.patch], Canonical digits) ∧
      text.toList.getLast? ≠ some '\n' := by
  constructor
  · intro h
    have hwritten : (Shape.ofVersion shape.version).Spells text :=
      ⟨hspells.wellFormed.ofVersion, .inl (h ▸ toList_text _)⟩
    refine ⟨?_, ?_⟩
    · rw [hspells.unique hwritten]
      exact Shape.canonical_ofVersion _
    · rw [← h, toList_text]
      exact hspells.wellFormed.ofVersion.getLast?_text
  · rintro ⟨hcanonical, hlast⟩
    have htext : text.toList = shape.text := by
      refine hspells.toList_eq_or.resolve_right fun htext => hlast ?_
      rw [htext, List.getLast?_concat]
    rw [← String.toList_inj, toList_text, Shape.ofVersion_version hspells.wellFormed hcanonical,
      htext]

/-- When a text is read and as what, and what is written for it then. -/
structure Reading (text : String) : Prop where
  ok_iff : ∀ v, parse text = .ok v ↔ ∃ shape : Shape, shape.Spells text ∧
    (∀ digits ∈ [shape.major, shape.minor, shape.patch], digits.length ≤ digitLimit) ∧
    v = shape.version
  longNumeral_iff : (∃ n, parse text = .error (.longNumeral n)) ↔
    ∃ shape : Shape, shape.Spells text ∧
      ∃ digits ∈ [shape.major, shape.minor, shape.patch], digitLimit < digits.length
  malformed_iff : parse text = .error (.malformed text) ↔ ¬ ∃ shape : Shape, shape.Spells text
  reads_back : ∀ v, parse text = .ok v → parse v.text = .ok v
  text_eq_iff : ∀ (shape : Shape) (v : Version), shape.Spells text → parse text = .ok v →
    (v.text = text ↔ (∀ digits ∈ [shape.major, shape.minor, shape.patch], Canonical digits) ∧
      text.toList.getLast? ≠ some '\n')

/-- A text is read just in case it spells three numerals within the limit, with a tag or without,
and the version is read back from what is written for it. -/
theorem reading (text : String) : Reading text where
  ok_iff v := by
    simp only [Shape.spells_iff]
    exact parse_eq_ok_iff
  longNumeral_iff := by
    simp only [Shape.spells_iff]
    exact exists_longNumeral_iff
  malformed_iff := parse_eq_malformed_iff
  reads_back _ := parse_text
  text_eq_iff shape v hspells h := by
    obtain ⟨shape', hshape', -, rfl⟩ := parse_eq_ok_iff.1 h
    rw [(Shape.spells_iff.2 hshape').unique hspells]
    exact Version.text_eq_iff hspells

example : parse "١.02.3-a-b\n" = .ok ⟨1, 2, 3, some "a-b"⟩ := by decide +kernel

end DependencyAudit.Version
