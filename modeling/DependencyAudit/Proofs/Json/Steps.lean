import Mathlib.Data.List.TakeWhile
import DependencyAudit.Json.Reader
import DependencyAudit.Proofs.TableOfList
import DependencyAudit.Proofs.Text.DecimalText

/-!
# One lexeme more

What the reader does with a lexeme, told once: which lexemes may come in a state and which state
comes next, and which limits stop it. What no step loses holds of a whole run. So whatever holds of
all values that are read so far, and is not lost when values are put together, holds of the value of
the whole text.
-/

namespace DependencyAudit.Json

open Text State

/-- The values of lexemes that are no texts and no whole numbers. -/
inductive WordValue : Value → Prop
  | literal {w : String × Value} (h : w ∈ literalWords) : WordValue w.2
  | decimal (negative : Bool) (coefficient digits : Nat) (exponent : Int) :
    WordValue (.real (Binary64.ofDecimal negative coefficient digits exponent))

/-- What a lexeme takes from the text in which it comes first. -/
def Lexeme.TakenFrom (s : List Char) : Lexeme → Prop
  | word v => WordValue v
  | integer _ digits => digits <:+: s ∧ ∀ c ∈ digits, isDigit c
  | _ => True

variable {lexeme : Lexeme}

theorem isDigit_of_isAsciiDigit {c : Char} (h : isAsciiDigit c) : isDigit c := by
  have hrange : '0' ≤ c ∧ c ≤ '9' := by simpa [isAsciiDigit] using h
  exact isDigit_of_ascii (Char.isDigit_iff_toNat.2 hrange)

theorem wholePart_isPrefix (cs : List Char) :
    wholePart cs <+: cs ∧ ∀ c ∈ wholePart cs, isDigit c := by
  unfold wholePart
  split
  · exact ⟨(List.prefix_cons_inj _).2 List.nil_prefix, List.forall_mem_singleton.2 (by decide)⟩
  · exact ⟨List.takeWhile_prefix _,
      fun c hc => isDigit_of_isAsciiDigit (List.mem_takeWhile_imp hc)⟩

theorem takenFrom_of_number? {negative : Bool} {cs : List Char} {n : Nat}
    (h : number? negative cs = some (lexeme, n)) : lexeme.TakenFrom cs := by
  simp only [number?, Option.ite_none_left_eq_some] at h
  rcases ite_eq_iff.1 h.2 with ⟨-, h⟩ | ⟨-, h⟩
  · rw [← (Prod.mk.inj (Option.some.inj h)).1]
    exact ⟨(wholePart_isPrefix cs).1.isInfix, (wholePart_isPrefix cs).2⟩
  · rw [← (Prod.mk.inj (Option.some.inj h)).1]
    exact .decimal _ _ _ _

theorem Lexeme.TakenFrom.cons {cs : List Char} (h : lexeme.TakenFrom cs) (c : Char) :
    lexeme.TakenFrom (c :: cs) := by
  cases lexeme with
  | integer negative digits => exact ⟨List.infix_cons h.1, h.2⟩
  | _ => exact h

theorem takenFrom_of_signedNumber? {cs : List Char} {n : Nat}
    (h : signedNumber? cs = some (lexeme, n)) : lexeme.TakenFrom cs := by
  unfold signedNumber? at h
  split at h
  · obtain ⟨⟨lexeme', k⟩, hnumber, heq⟩ := Option.map_eq_some_iff.1 h
    obtain ⟨rfl, -⟩ := Prod.mk.inj heq
    exact (takenFrom_of_number? hnumber).cons '-'
  · exact takenFrom_of_number? h

theorem takenFrom_of_word? {cs : List Char} {n : Nat} (h : word? cs = some (lexeme, n)) :
    lexeme.TakenFrom cs := by
  obtain ⟨w, hw, heq⟩ := Option.map_eq_some_iff.1 h
  rw [← (Prod.mk.inj heq).1]
  exact .literal (List.mem_of_find?_eq_some hw)

theorem takenFrom_read (cs : List Char) : (Lexeme.read cs).1.TakenFrom cs := by
  unfold Lexeme.read
  split
  iterate 6 trivial
  · split <;> trivial
  · cases hword : word? cs with
    | some read =>
      rw [Option.some_or]
      exact takenFrom_of_word? hword
    | none =>
      rw [Option.none_or]
      cases hnumber : signedNumber? cs with
      | some read => exact takenFrom_of_signedNumber? hnumber
      | none => trivial

/-- The containers around the value that may come next. -/
inductive Awaiting : State → List Frame → Prop
  | value (stack : List Frame) : Awaiting (.value stack) stack
  | firstItem (stack : List Frame) : Awaiting (.firstItem stack) (.array [] :: stack)

/-- A lexeme that is a value by itself. -/
inductive Leaf : Lexeme → Value → Prop
  | word (v : Value) : Leaf (.word v) v
  | integer (negative : Bool) {digits : List Char} {n : Nat} (h : number digits = .ok n) :
    Leaf (.integer negative digits) (.int (signed negative n))
  | string (s : String) : Leaf (.string s) (.str s)

/-- A lexeme that may come in a state, and the state after it. -/
inductive Step : State → Lexeme → State → Prop
  | leaf {s : State} {stack : List Frame} {lexeme : Lexeme} {v : Value} (h : Awaiting s stack)
    (hv : Leaf lexeme v) : Step s lexeme (deliver v stack)
  | openArray {s : State} {stack : List Frame} (h : Awaiting s stack) :
    Step s .openArray (.firstItem stack)
  | openObject {s : State} {stack : List Frame} (h : Awaiting s stack) :
    Step s .openObject (.firstName stack)
  | noItem (stack : List Frame) : Step (.firstItem stack) .closeArray (closeArray [] stack)
  | noMember (stack : List Frame) : Step (.firstName stack) .closeObject (closeObject [] stack)
  | firstName (name : String) (stack : List Frame) :
    Step (.firstName stack) (.string name) (.colon [] name stack)
  | nextName (members : List (String × Value)) (name : String) (stack : List Frame) :
    Step (.nextName members stack) (.string name) (.colon members name stack)
  | colon (members : List (String × Value)) (name : String) (stack : List Frame) :
    Step (.colon members name stack) .colon (.value (.object members name :: stack))
  | nextItem (items : List Value) (stack : List Frame) :
    Step (.afterItem items stack) .comma (.value (.array items :: stack))
  | lastItem (items : List Value) (stack : List Frame) :
    Step (.afterItem items stack) .closeArray (closeArray items stack)
  | nextMember (members : List (String × Value)) (stack : List Frame) :
    Step (.afterMember members stack) .comma (.nextName members stack)
  | lastMember (members : List (String × Value)) (stack : List Frame) :
    Step (.afterMember members stack) .closeObject (closeObject members stack)

/-- A limit that stops the reader at a lexeme. -/
inductive Halt (room : Nat) (stack : List Frame) : Lexeme → Limit → Prop
  | longNumeral (negative : Bool) {digits : List Char} {n : LongNumeral}
    (h : number digits = .error n) : Halt room stack (.integer negative digits) (.longNumeral n)
  | array (h : room ≤ stack.length) : Halt room stack .openArray (.nesting .array)
  | object (h : room ≤ stack.length) : Halt room stack .openObject (.nesting .object)

variable {room : Nat} {s next : State} {stack : List Frame} {members : List (String × Value)}
  {v : Value} {rest : List Char}

theorem Awaiting.step_eq (h : Awaiting s stack) (hne : lexeme ≠ .closeArray) (room : Nat) :
    s.step room lexeme = takeValue room stack lexeme := by
  cases h with
  | value stack => rfl
  | firstItem stack =>
    cases lexeme with
    | closeArray => exact absurd rfl hne
    | _ => rfl

theorem Awaiting.step_string (h : Awaiting s stack) (text : String) :
    s.step room (.string text) = .ok (deliver (.str text) stack) := by
  rw [h.step_eq (by simp)]
  rfl

theorem Awaiting.step_openArray (h : Awaiting s stack) (hlength : stack.length < room) :
    s.step room .openArray = .ok (.firstItem stack) := by
  rw [h.step_eq (by simp)]
  exact if_pos hlength

theorem Awaiting.step_openObject (h : Awaiting s stack) (hlength : stack.length < room) :
    s.step room .openObject = .ok (.firstName stack) := by
  rw [h.step_eq (by simp)]
  exact if_pos hlength

theorem Awaiting.step_openArray_of_le (h : Awaiting s stack) (hlength : room ≤ stack.length) :
    s.step room .openArray = .error (.limit (.nesting .array)) := by
  rw [h.step_eq (by simp)]
  exact if_neg (Nat.not_lt.2 hlength)

theorem Step.of_takeValue (hs : Awaiting s stack) (h : takeValue room stack lexeme = .ok next) :
    Step s lexeme next := by
  cases lexeme with
  | openArray =>
    simp only [takeValue, enter] at h
    split at h
    · rw [← Except.ok.inj h]
      exact .openArray hs
    · exact nomatch h
  | openObject =>
    simp only [takeValue, enter] at h
    split at h
    · rw [← Except.ok.inj h]
      exact .openObject hs
    · exact nomatch h
  | word v =>
    rw [← Except.ok.inj h]
    exact .leaf hs (.word v)
  | integer negative digits =>
    simp only [takeValue] at h
    split at h
    · rename_i n hn
      rw [← Except.ok.inj h]
      exact .leaf hs (.integer negative hn)
    · exact nomatch h
  | string t =>
    rw [← Except.ok.inj h]
    exact .leaf hs (.string t)
  | _ => exact nomatch h

theorem exists_name_of_takeName (h : takeName members stack lexeme = .ok next) :
    ∃ name, lexeme = .string name ∧ next = .colon members name stack := by
  cases lexeme with
  | string name => exact ⟨name, rfl, (Except.ok.inj h).symm⟩
  | _ => exact nomatch h

theorem Step.of_step (h : s.step room lexeme = .ok next) : Step s lexeme next := by
  unfold step at h
  split at h
  · exact Step.of_takeValue (.value _) h
  · rw [← Except.ok.inj h]
    exact .noItem _
  · exact Step.of_takeValue (.firstItem _) h
  · rw [← Except.ok.inj h]
    exact .noMember _
  · obtain ⟨name, rfl, rfl⟩ := exists_name_of_takeName h
    exact .firstName name _
  · obtain ⟨name, rfl, rfl⟩ := exists_name_of_takeName h
    exact .nextName _ name _
  · rw [← Except.ok.inj h]
    exact .colon _ _ _
  · exact nomatch h
  · rw [← Except.ok.inj h]
    exact .nextItem _ _
  · rw [← Except.ok.inj h]
    exact .lastItem _ _
  · exact nomatch h
  · rw [← Except.ok.inj h]
    exact .nextMember _ _
  · rw [← Except.ok.inj h]
    exact .lastMember _ _
  · exact nomatch h
  · exact nomatch h

theorem Halt.of_takeValue {limit : Limit}
    (h : takeValue room stack lexeme = .error (.limit limit)) : Halt room stack lexeme limit := by
  cases lexeme with
  | openArray =>
    simp only [takeValue, enter] at h
    split at h
    · exact nomatch h
    · rename_i hfull
      rw [← Obstacle.limit.inj (Except.error.inj h)]
      exact .array (Nat.not_lt.1 hfull)
  | openObject =>
    simp only [takeValue, enter] at h
    split at h
    · exact nomatch h
    · rename_i hfull
      rw [← Obstacle.limit.inj (Except.error.inj h)]
      exact .object (Nat.not_lt.1 hfull)
  | integer negative digits =>
    simp only [takeValue] at h
    split at h
    · exact nomatch h
    · rename_i n hn
      rw [← Obstacle.limit.inj (Except.error.inj h)]
      exact .longNumeral negative hn
  | _ => exact nomatch h

theorem takeName_ne_limit (limit : Limit) :
    takeName members stack lexeme ≠ .error (.limit limit) := by
  cases lexeme <;> exact nofun

theorem exists_halt_of_step {limit : Limit} (h : s.step room lexeme = .error (.limit limit)) :
    ∃ stack, Awaiting s stack ∧ Halt room stack lexeme limit := by
  unfold step at h
  split at h
  case h_1 => exact ⟨_, .value _, Halt.of_takeValue h⟩
  case h_3 => exact ⟨_, .firstItem _, Halt.of_takeValue h⟩
  case h_5 => exact absurd h (takeName_ne_limit limit)
  case h_6 => exact absurd h (takeName_ne_limit limit)
  all_goals exact nomatch h

/-- A property of a state and of what is left to read, the next `skip` characters of it to be passed
over, that no step of the reader loses. -/
structure Invariant (I : State → Nat → List Char → Prop) : Prop where
  skip : ∀ s skip c cs, I s (skip + 1) (c :: cs) → I s skip cs
  space : ∀ s c cs, isSpace c → I s 0 (c :: cs) → I s 0 cs
  step : ∀ s next c cs, ¬ isSpace c → I s 0 (c :: cs) →
    Step s (Lexeme.read (c :: cs)).1 next → I next ((Lexeme.read (c :: cs)).2 - 1) cs

/-- How a run ends that keeps an invariant. -/
inductive Ends (room : Nat) (I : State → Nat → List Char → Prop) : Except Stop Value → Prop
  | finished {last : State} {skip : Nat} {v : Value} (h : I last skip [])
    (hfinish : last.finish = .ok v) : Ends room I (.ok v)
  | halted {last : State} {c : Char} {rest : List Char} {stack : List Frame} {limit : Limit}
    (h : I last 0 (c :: rest)) (hspace : ¬ isSpace c) (hawaiting : Awaiting last stack)
    (hhalt : Halt room stack (Lexeme.read (c :: rest)).1 limit) :
    Ends room I (.error (.limit limit))
  | flawed (flaw : Flaw) : Ends room I (.error (.flaw flaw))

theorem Invariant.ends {I : State → Nat → List Char → Prop} (hI : Invariant I) (room skip : Nat)
    (cs : List Char) (hs : I s skip cs) : Ends room I (readFrom room s skip cs) := by
  induction cs generalizing s skip with
  | nil =>
    rw [readFrom]
    split
    · rename_i hfinish
      exact .finished hs hfinish
    · exact .flawed _
  | cons c cs ih =>
    cases skip with
    | succ skip =>
      rw [readFrom]
      exact ih skip (hI.skip s skip c cs hs)
    | zero =>
      rw [readFrom]
      split
      · rename_i hspace
        exact ih 0 (hI.space s c cs hspace hs)
      · rename_i hspace
        dsimp only
        split
        · rename_i hstep
          exact ih _ (hI.step s _ c cs hspace hs (.of_step hstep))
        · exact .flawed _
        · exact .flawed _
        · rename_i hstep
          obtain ⟨stack, hawaiting, hhalt⟩ := exists_halt_of_step hstep
          exact .halted hs hspace hawaiting hhalt

theorem readFrom_skip (s : State) (skip : Nat) (cs : List Char) :
    readFrom room s skip cs = readFrom room s 0 (cs.drop skip) := by
  induction skip generalizing cs with
  | zero => rfl
  | succ skip ih =>
    cases cs with
    | nil => rw [List.drop_nil, readFrom, readFrom]
    | cons c cs => rw [readFrom, ih, List.drop_succ_cons]

theorem readFrom_spaces (gap : List Char) (h : ∀ c ∈ gap, isSpace c) (s : State) :
    readFrom room s 0 (gap ++ rest) = readFrom room s 0 rest := by
  induction gap with
  | nil => rfl
  | cons c gap ih =>
    obtain ⟨hc, hgap⟩ := List.forall_mem_cons.1 h
    rw [List.cons_append, readFrom, if_pos hc, ih hgap]

theorem readFrom_lexeme {c : Char} (text : List Char) (hc : ¬ isSpace c)
    (hread : Lexeme.read (c :: text ++ rest) = (lexeme, text.length + 1))
    (hstep : s.step room lexeme = .ok next) :
    readFrom room s 0 (c :: text ++ rest) = readFrom room next 0 rest := by
  rw [List.cons_append] at hread ⊢
  rw [readFrom, if_neg hc, hread]
  dsimp only
  rw [hstep]
  dsimp only
  rw [readFrom_skip, Nat.add_sub_cancel, List.drop_left]

theorem readFrom_mark {c : Char} (hc : ¬ isSpace c)
    (hread : Lexeme.read (c :: rest) = (lexeme, 1)) (hstep : s.step room lexeme = .ok next) :
    readFrom room s 0 (c :: rest) = readFrom room next 0 rest :=
  readFrom_lexeme [] hc hread hstep

theorem readFrom_limit {c : Char} {n : Nat} {limit : Limit} (hc : ¬ isSpace c)
    (hread : Lexeme.read (c :: rest) = (lexeme, n))
    (hstep : s.step room lexeme = .error (.limit limit)) :
    readFrom room s 0 (c :: rest) = .error (.limit limit) := by
  rw [readFrom, if_neg hc, hread]
  dsimp only
  rw [hstep]

/-- A text that does not start with a byte order mark is read from its first character. -/
theorem parse_of_head?_ne {text : String} (h : text.toList.head? ≠ some '\uFEFF') :
    parse room text =
      match readFrom room (.value []) 0 text.toList with
      | .ok v => .ok v
      | .error (.flaw flaw) => .error (.malformed (flaw.locate text.toList))
      | .error (.limit limit) => .error (.limit limit) := if_neg h

theorem readFrom_of_parse_eq_ok {text : String} (h : parse room text = .ok v) :
    readFrom room (.value []) 0 text.toList = .ok v := by
  unfold parse at h
  dsimp only at h
  split at h
  · contradiction
  · split at h
    · rename_i hread
      rw [hread, Except.ok.inj h]
    all_goals contradiction

theorem readFrom_of_parse_eq_limit {text : String} {limit : Limit}
    (h : parse room text = .error (.limit limit)) :
    readFrom room (.value []) 0 text.toList = .error (.limit limit) := by
  unfold parse at h
  dsimp only at h
  split at h
  · exact nomatch h
  · split at h
    · exact nomatch h
    · exact nomatch h
    · rename_i hread
      rw [hread, Error.limit.inj (Except.error.inj h)]

def Frame.values : Frame → List Value
  | .array items => items
  | .object members _ => members.map Prod.snd

/-- All values read so far. -/
def State.values : State → List Value
  | value stack => stack.flatMap Frame.values
  | firstItem stack => stack.flatMap Frame.values
  | firstName stack => stack.flatMap Frame.values
  | nextName members stack => members.map Prod.snd ++ stack.flatMap Frame.values
  | colon members _ stack => members.map Prod.snd ++ stack.flatMap Frame.values
  | afterItem items stack => items ++ stack.flatMap Frame.values
  | afterMember members stack => members.map Prod.snd ++ stack.flatMap Frame.values
  | finished v => [v]

theorem Awaiting.values (h : Awaiting s stack) : s.values = stack.flatMap Frame.values := by
  cases h <;> rfl

/-- A property of values that reading cannot lose. -/
structure Kept (P : Value → Prop) : Prop where
  word : ∀ v, WordValue v → P v
  integer : ∀ negative digits n, number digits = .ok n → P (.int (signed negative n))
  string : ∀ s, P (.str s)
  array : ∀ items : List Value, (∀ v ∈ items, P v) → P (.array items)
  object : ∀ members : List (String × Value), (members.map Prod.fst).Nodup →
    (∀ m ∈ members, P m.2) → P (.object members)

namespace Kept

variable {P : Value → Prop} (hP : Kept P)

include hP

theorem leaf {cs : List Char} (hlexeme : lexeme.TakenFrom cs) (h : Leaf lexeme v) : P v := by
  cases h with
  | word v => exact hP.word v hlexeme
  | integer negative h => exact hP.integer negative _ _ h
  | string s => exact hP.string s

omit hP in
theorem deliver (hv : P v) (hstack : ∀ w ∈ stack.flatMap Frame.values, P w) :
    ∀ w ∈ (deliver v stack).values, P w := by
  cases stack with
  | nil => exact List.forall_mem_singleton.2 hv
  | cons frame stack =>
    cases frame with
    | array items => exact List.forall_mem_cons.2 ⟨hv, hstack⟩
    | object members name => exact List.forall_mem_cons.2 ⟨hv, hstack⟩

theorem closeArray {items : List Value} (h : ∀ w ∈ (afterItem items stack).values, P w) :
    ∀ w ∈ (closeArray items stack).values, P w := by
  obtain ⟨hitems, hstack⟩ := List.forall_mem_append.1 h
  exact deliver (hP.array _ fun w hw => hitems w (List.mem_reverse.1 hw)) hstack

/-- A repeated name goes when its object is closed. -/
theorem closeObject (h : ∀ w ∈ (afterMember members stack).values, P w) :
    ∀ w ∈ (closeObject members stack).values, P w := by
  obtain ⟨hmembers, hstack⟩ := List.forall_mem_append.1 h
  refine deliver (hP.object _ (Table.nodup _) fun m hm => ?_) hstack
  have hread : m ∈ members := List.mem_reverse.1 (Table.mem_of_mem_entries_ofList hm)
  exact hmembers m.2 (List.mem_map_of_mem hread)

theorem step {cs : List Char} (hlexeme : lexeme.TakenFrom cs) (h : Step s lexeme next)
    (hs : ∀ w ∈ s.values, P w) : ∀ w ∈ next.values, P w := by
  cases h with
  | leaf h hv =>
    rw [h.values] at hs
    exact deliver (hP.leaf hlexeme hv) hs
  | openArray h =>
    rw [h.values] at hs
    exact hs
  | openObject h =>
    rw [h.values] at hs
    exact hs
  | noItem stack => exact hP.closeArray hs
  | noMember stack => exact hP.closeObject hs
  | lastItem items stack => exact hP.closeArray hs
  | lastMember members stack => exact hP.closeObject hs
  | _ => exact hs

theorem invariant : Invariant fun s _ _ => ∀ w ∈ s.values, P w where
  skip _ _ _ _ hs := hs
  space _ _ _ _ hs := hs
  step _ _ c cs _ hs h := hP.step (takenFrom_read (c :: cs)) h hs

/-- Whatever reading cannot lose holds of the value of a text. -/
theorem parse {text : String} (h : parse room text = .ok v) : P v := by
  have hnone : ∀ w ∈ (State.value []).values, P w := fun w hw => absurd hw List.not_mem_nil
  have hends := hP.invariant.ends room 0 text.toList hnone
  rw [readFrom_of_parse_eq_ok h] at hends
  cases hends with
  | @finished last skip _ hlast hfinish =>
    cases last with
    | finished w =>
      rw [← Except.ok.inj hfinish]
      exact hlast w List.mem_cons_self
    | _ => contradiction

end Kept
end DependencyAudit.Json
