import DependencyAudit.Proofs.Json.Steps
import DependencyAudit.Proofs.Text.Numerals

/-!
# Numerals that are too long

A whole number of more digits than the limit is read no further. That is not a fault of the text, so
it is reported apart from those. It never comes about in a text that keeps to the digit limit.
-/

namespace DependencyAudit.Json

open Text

theorem read_digits {ds : List Char} (h : ∀ c ∈ ds, isAsciiDigit c) :
    Lexeme.read ('1' :: ds) = (.integer false ('1' :: ds), ds.length + 1) := by
  have hword : word? ('1' :: ds) = none := rfl
  have hwhole : wholePart ('1' :: ds) = '1' :: ds := by
    change ('1' :: ds).takeWhile isAsciiDigit = _
    exact List.takeWhile_eq_self_iff.2 (List.forall_mem_cons.2 ⟨rfl, h⟩)
  change ((word? ('1' :: ds)).or (number? false ('1' :: ds))).getD (.unknown, 1) = _
  rw [hword, Option.none_or, number?]
  simp [hwhole, fraction, exponent]

theorem parse_longNumeral {room : Nat} {ds : List Char} (h : ∀ c ∈ ds, isAsciiDigit c)
    (hlimit : digitLimit ≤ ds.length) :
    parse room (String.ofList ('1' :: ds)) = .error (.limit (.longNumeral ⟨ds.length + 1⟩)) := by
  have hnumber : number ('1' :: ds) = .error ⟨ds.length + 1⟩ :=
    if_neg (Nat.not_le.2 (Nat.lt_succ_of_le hlimit))
  have hread : readFrom room (.value []) 0 ('1' :: ds) =
      .error (.limit (.longNumeral ⟨ds.length + 1⟩)) := by
    rw [readFrom, if_neg (by decide), read_digits h]
    simp only [State.step, State.takeValue, hnumber]
  unfold parse
  rw [String.toList_ofList, if_neg (by simp), hread]

/-- The numeral that stops the reader stands in the text. -/
theorem parse_ne_longNumeral {room : Nat} {text : String} (h : WithinDigitLimit text.toList)
    (n : LongNumeral) : parse room text ≠ .error (.limit (.longNumeral n)) := by
  have hrest : Invariant fun _ _ cs => WithinDigitLimit cs :=
    ⟨fun _ _ _ _ hcs => hcs.of_isInfix (List.infix_cons List.infix_rfl),
      fun _ _ _ _ hcs => hcs.of_isInfix (List.infix_cons List.infix_rfl),
      fun _ _ _ _ _ hcs _ => hcs.of_isInfix (List.infix_cons List.infix_rfl)⟩
  intro hlimit
  have hends := hrest.ends (s := .value []) room 0 text.toList h
  rw [readFrom_of_parse_eq_limit hlimit] at hends
  cases hends with
  | @halted _ c rest _ _ hcs _ _ hhalt =>
    have htaken := takenFrom_read (c :: rest)
    generalize (Lexeme.read (c :: rest)).1 = lexeme at hhalt htaken
    cases hhalt with
    | longNumeral negative hnumber =>
      rw [number_of_length_le (hcs _ htaken.1 htaken.2)] at hnumber
      exact nomatch hnumber

end DependencyAudit.Json
