import DependencyAudit.Manifest
import DependencyAudit.Proofs.Json.Display
import DependencyAudit.Proofs.Range.Recognition
import DependencyAudit.Proofs.Version.Writing

/-!
# Declared ranges

A declared range is what is displayed of some value in the manifest. It can be compared with every
version, whatever the value is: if it keeps to the digit limit nothing else can go wrong, and if it
starts with a bracket its first word is no clause, so the rest of it is never looked at.
-/

namespace DependencyAudit

open Text Json

section

variable {c : Char} {s : List Char}

theorem Clause.bound_cons_of_not_isDigit (hc : ¬ isDigit c) (s : List Char) :
    bound (String.ofList (c :: s)) = .error (.malformed (String.ofList (c :: s))) := by
  unfold bound
  rw [Version.parse_cons_of_not_isDigit hc]

theorem Clause.parse_cons_of_bracket (hc : c ∈ ['[', '\x7b']) (s : List Char) :
    parse (c :: s) = .error (.malformed (String.ofList (c :: s))) := by
  have hmark : (c ≠ '*' ∧ c ≠ 'x' ∧ c ≠ 'X') ∧ c ≠ '.' ∧ ¬ isDigit c ∧ ¬ Range.isOperator c := by
    rcases List.mem_pair.1 hc with rfl | rfl <;> decide
  obtain ⟨hwild, hdot, hdigit, hoperator⟩ := hmark
  rw [parse_of_partialVersion?_eq_none hwild (partialVersion?_of_not_isDigit hdot hdigit s),
    ofOperator_bare hoperator, bound_cons_of_not_isDigit hdigit]
  rfl

theorem Range.exists_words_of_not_isBlank (hc : ¬ isBlank c) (s : List Char) :
    ∃ w ws, words (normalise (c :: s)) = (c :: w) :: ws := by
  have hglue : glue false (c :: s) = c :: glue (isOperator c) s := by
    rw [glue, if_neg (by simp)]
  obtain ⟨part, parts, hcut⟩ := exists_cut_cons isBlank hc (glue (isOperator c) s)
  rw [words_normalise, hglue, words, hcut]
  exact ⟨part, parts.filter (! ·.isEmpty), List.filter_cons_of_pos rfl⟩

theorem Range.exists_malformed_of_bracket {range : String} (hc : c ∈ ['[', '\x7b'])
    (h : range.toList = c :: s) : ∃ token, parse range = .error (.malformed token) := by
  have hmark : ¬ isBlank c ∧ ¬ isDigit c := by
    rcases List.mem_pair.1 hc with rfl | rfl <;> decide
  obtain ⟨w, ws, hwords⟩ := exists_words_of_not_isBlank hmark.1 s
  refine ⟨String.ofList (c :: w), ?_⟩
  rw [parse, h]
  generalize words (normalise (c :: s)) = all at hwords
  unfold ofWords
  split
  · contradiction
  · rw [(List.cons.inj hwords).1, Clause.bound_cons_of_not_isDigit hmark.2]
    rfl
  · rw [hwords, List.mapM_cons, Clause.parse_cons_of_bracket hc]
    rfl

end

theorem Range.exists_covers_display {v : Value} {version : String} (hv : Sized v)
    (hstrings : ∀ s ∈ v.strings, WithinDigitLimit s.toList)
    (hversion : WithinDigitLimit version.toList) : ∃ b, covers v.display version = .ok b := by
  rcases withinDigitLimit_display hv hstrings with hlimit | ⟨c, hc, rest, hdisplay⟩
  · rcases covers_cases hversion hlimit with ⟨-, hcovers⟩ | ⟨b, -, hcovers⟩
    · exact ⟨_, hcovers⟩
    · exact ⟨b, hcovers⟩
  · obtain ⟨candidate, hcandidate⟩ := exists_candidate hversion
    obtain ⟨token, htoken⟩ := exists_malformed_of_bracket hc hdisplay
    have heval : evaluate version v.display = .error (.malformed token) := by
      rw [evaluate_eq_bind hcandidate, htoken]
      rfl
    refine ⟨v.display == version, ?_⟩
    unfold covers
    rw [heval]

namespace Manifest

variable {document : List (String × Value)} {name range : String}

/-- The range is what is displayed of a member of some section. -/
def Declares (document : List (String × Value)) (name range : String) : Prop :=
  ∃ title members v, (title, Value.object members) ∈ document ∧ (name, v) ∈ members ∧
    range = v.display

theorem declares_of_mem_declarations {title : String}
    (h : (name, range) ∈ declarations document title) : Declares document name range := by
  unfold declarations at h
  obtain ⟨⟨name', v⟩, hmember, heq⟩ := List.mem_map.1 h
  obtain ⟨rfl, rfl⟩ := Prod.mk.inj heq
  cases hsection : Value.member? document title with
  | none =>
    rw [hsection] at hmember
    exact absurd hmember List.not_mem_nil
  | some value =>
    rw [hsection] at hmember
    cases value with
    | object members =>
      exact ⟨title, members, v, Table.mem_of_lookup_eq_some hsection, hmember, rfl⟩
    | _ => exact absurd hmember List.not_mem_nil

theorem declares_of_find?_collect {sections : List String}
    (h : (collect document sections).find? name = some range) : Declares document name range := by
  rw [collect, Table.find?_insertAllNew, Table.find?_empty, Option.none_or] at h
  obtain ⟨title, -, hmem⟩ := List.mem_flatMap.1 (Table.mem_of_lookup_eq_some h)
  exact declares_of_mem_declarations hmem

theorem declares_of_find?_declared (h : (ofDocument document).declared.find? name = some range) :
    Declares document name range := by
  rw [declared, Table.find?_insertAllNew, Option.or_eq_some_iff] at h
  rcases h with hproduction | ⟨-, hdevelopment⟩
  · exact declares_of_find?_collect hproduction
  · exact declares_of_find?_collect hdevelopment

/-- Whatever is declared can be compared with any version. -/
theorem exists_covers_of_declared {version : String} (hdocument : Sized (.object document))
    (hstrings : ∀ s ∈ (Value.object document).strings, WithinDigitLimit s.toList)
    (hversion : WithinDigitLimit version.toList)
    (h : (ofDocument document).declared.find? name = some range) :
    ∃ b, Range.covers range version = .ok b := by
  obtain ⟨title, members, v, hsection, hmember, rfl⟩ := declares_of_find?_declared h
  refine Range.exists_covers_display ((hdocument.member hsection).member hmember) ?_ hversion
  intro s hs
  exact hstrings s (Value.strings_subset_of_mem hsection (Value.strings_subset_of_mem hmember hs))

end Manifest
end DependencyAudit
