import DependencyAudit.Proofs.Json.Steps

/-!
# Nesting

The reader runs out of room for nesting only if the brackets of the text ask for more. After each
lexeme as many containers are open as there are brackets opened and not closed. A text that is read
without running out of room is read alike where there is more.
-/

namespace DependencyAudit.Json

open State

/-- How many brackets are open after a lexeme. -/
def Lexeme.opened (before : Nat) : Lexeme → Nat
  | openArray => before + 1
  | openObject => before + 1
  | closeArray => before - 1
  | closeObject => before - 1
  | _ => before

/-- The lexemes of a text; `skip` characters belong to a lexeme already taken. -/
def lexemes : (skip : Nat) → List Char → List Lexeme
  | _, [] => []
  | skip + 1, _ :: cs => lexemes skip cs
  | 0, c :: cs =>
    if isSpace c then lexemes 0 cs
    else (Lexeme.read (c :: cs)).1 :: lexemes ((Lexeme.read (c :: cs)).2 - 1) cs

/-- At no lexeme are more brackets open than there may be containers. -/
def nestsWithin (limit : Nat) : (opened : Nat) → List Lexeme → Bool
  | _, [] => true
  | opened, l :: ls => l.opened opened ≤ limit && nestsWithin limit (l.opened opened) ls

/-- The room for nesting is enough for the reader to read the text. -/
def WithinNestingLimit (room : Nat) (text : String) : Prop :=
  ∀ container, parse room text ≠ .error (.limit (.nesting container))

/-- The number of containers that are open. -/
def State.depth : State → Nat
  | value stack => stack.length
  | firstItem stack => stack.length + 1
  | firstName stack => stack.length + 1
  | nextName _ stack => stack.length + 1
  | colon _ _ stack => stack.length + 1
  | afterItem _ stack => stack.length + 1
  | afterMember _ stack => stack.length + 1
  | finished _ => 0

variable {room room' : Nat} {s next : State} {stack : List Frame} {lexeme : Lexeme}

theorem depth_deliver (v : Value) (stack : List Frame) :
    (deliver v stack).depth = stack.length := by
  cases stack with
  | nil => rfl
  | cons frame stack => cases frame <;> rfl

theorem Awaiting.depth (h : Awaiting s stack) : s.depth = stack.length := by
  cases h <;> rfl

theorem Leaf.opened {v : Value} (h : Leaf lexeme v) (n : Nat) : lexeme.opened n = n := by
  cases h <;> rfl

theorem Step.depth (h : Step s lexeme next) : next.depth = lexeme.opened s.depth := by
  cases h with
  | leaf h hv => rw [depth_deliver, hv.opened, h.depth]
  | openArray h =>
    rw [h.depth]
    rfl
  | openObject h =>
    rw [h.depth]
    rfl
  | noItem stack => exact depth_deliver _ stack
  | noMember stack => exact depth_deliver _ stack
  | lastItem items stack => exact depth_deliver _ stack
  | lastMember members stack => exact depth_deliver _ stack
  | _ => rfl

theorem Halt.opened {container : Container} (h : Halt room stack lexeme (.nesting container)) :
    room < lexeme.opened stack.length := by
  cases h with
  | array h => exact Nat.lt_succ_of_le h
  | object h => exact Nat.lt_succ_of_le h

/-- The brackets of what is left to read are within the room, counted from those that are open. -/
theorem invariant_nestsWithin :
    Invariant fun s skip cs => nestsWithin room s.depth (lexemes skip cs) where
  skip _ _ _ _ h := h
  space _ _ _ hspace h := by
    rwa [lexemes, if_pos hspace] at h
  step _ _ _ _ hspace h hstep := by
    rw [lexemes, if_neg hspace, nestsWithin, Bool.and_eq_true] at h
    rw [hstep.depth]
    exact h.2

theorem withinNestingLimit_of_nestsWithin {text : String}
    (h : nestsWithin room 0 (lexemes 0 text.toList)) : WithinNestingLimit room text := by
  intro container hlimit
  have hends := invariant_nestsWithin.ends (s := .value []) room 0 text.toList h
  rw [readFrom_of_parse_eq_limit hlimit] at hends
  cases hends with
  | halted hrest hspace hawaiting hhalt =>
    rw [lexemes, if_neg hspace, nestsWithin, Bool.and_eq_true, decide_eq_true_eq,
      hawaiting.depth] at hrest
    exact absurd hrest.1 (Nat.not_le.2 hhalt.opened)

theorem enter_of_le (hroom : room ≤ room') {container : Container}
    (h : enter room container stack ≠ .error (.limit (.nesting container))) :
    enter room' container stack = enter room container stack := by
  unfold enter at h ⊢
  by_cases hlength : stack.length < room
  · rw [if_pos hlength, if_pos (Nat.lt_of_lt_of_le hlength hroom)]
  · rw [if_neg hlength] at h
    exact absurd rfl h

theorem takeValue_of_le (hroom : room ≤ room')
    (h : ∀ container, takeValue room stack lexeme ≠ .error (.limit (.nesting container))) :
    takeValue room' stack lexeme = takeValue room stack lexeme := by
  cases lexeme with
  | openArray => exact enter_of_le hroom (h .array)
  | openObject => exact enter_of_le hroom (h .object)
  | _ => rfl

theorem step_of_le (hroom : room ≤ room')
    (h : ∀ container, s.step room lexeme ≠ .error (.limit (.nesting container))) :
    s.step room' lexeme = s.step room lexeme := by
  cases s with
  | value stack => exact takeValue_of_le hroom h
  | firstItem stack =>
    by_cases hclose : lexeme = .closeArray
    · rw [hclose]
      rfl
    · have hvalue := (Awaiting.firstItem stack).step_eq hclose
      simp only [hvalue] at h ⊢
      exact takeValue_of_le hroom h
  | _ => cases lexeme <;> rfl

/-- More room makes no difference to a run that does not run out of it. -/
theorem readFrom_of_le (hroom : room ≤ room') {skip : Nat} {cs : List Char}
    (h : ∀ container, readFrom room s skip cs ≠ .error (.limit (.nesting container))) :
    readFrom room' s skip cs = readFrom room s skip cs := by
  induction cs generalizing s skip with
  | nil => rw [readFrom, readFrom]
  | cons c cs ih =>
    cases skip with
    | succ skip =>
      rw [readFrom] at h
      rw [readFrom, readFrom]
      exact ih h
    | zero =>
      rw [readFrom] at h
      rw [readFrom, readFrom]
      by_cases hspace : isSpace c
      · rw [if_pos hspace] at h
        rw [if_pos hspace, if_pos hspace]
        exact ih h
      · rw [if_neg hspace] at h
        rw [if_neg hspace, if_neg hspace]
        dsimp only at h ⊢
        have hstep : s.step room' (Lexeme.read (c :: cs)).1 =
            s.step room (Lexeme.read (c :: cs)).1 := by
          apply step_of_le hroom
          intro container hlimit
          rw [hlimit] at h
          exact h container rfl
        rw [hstep]
        cases hnext : s.step room (Lexeme.read (c :: cs)).1 with
        | ok next =>
          rw [hnext] at h
          exact ih h
        | error obstacle => cases obstacle <;> rfl

theorem WithinNestingLimit.parse_eq (hroom : room ≤ room') {text : String}
    (h : WithinNestingLimit room text) : parse room' text = parse room text := by
  by_cases hmark : text.toList.head? = some '\uFEFF'
  · exact (if_pos hmark).trans (if_pos hmark).symm
  · unfold WithinNestingLimit at h
    rw [parse_of_head?_ne hmark] at h
    rw [parse_of_head?_ne hmark, parse_of_head?_ne hmark, readFrom_of_le hroom]
    intro container hlimit
    rw [hlimit] at h
    exact h container rfl

theorem parse_of_le (hroom : room ≤ room') {text : String} {v : Value}
    (h : parse room text = .ok v) : parse room' text = .ok v := by
  have hwithin : WithinNestingLimit room text := fun container hlimit => nomatch h.symm.trans hlimit
  rw [hwithin.parse_eq hroom, h]

/-- An empty array in as many arrays as are asked for. -/
def nestedArray : Nat → Value
  | 0 => .array []
  | n + 1 => .array [nestedArray n]

/-- The text of such an array. -/
def nestedText (n : Nat) : List Char := List.replicate (n + 1) '[' ++ List.replicate (n + 1) ']'

theorem nestedText_succ (n : Nat) : nestedText (n + 1) = '[' :: nestedText n ++ [']'] := by
  have hclose : List.replicate (n + 1 + 1) ']' = List.replicate (n + 1) ']' ++ [']'] :=
    List.replicate_succ'
  rw [nestedText, hclose, List.replicate_succ, List.cons_append, ← List.append_assoc]
  rfl

theorem readFrom_openArray (h : Awaiting s stack) (hlength : stack.length < room)
    (rest : List Char) :
    readFrom room s 0 ('[' :: rest) = readFrom room (.firstItem stack) 0 rest :=
  readFrom_mark (by decide) rfl (h.step_openArray hlength)

/-- With enough room the array is delivered to what is around it. -/
theorem readFrom_nestedText {n : Nat} (h : Awaiting s stack) (hlength : stack.length + n < room)
    (rest : List Char) : readFrom room s 0 (nestedText n ++ rest) =
      readFrom room (deliver (nestedArray n) stack) 0 rest := by
  induction n generalizing s stack rest with
  | zero =>
    change readFrom room s 0 ('[' :: ']' :: rest) = _
    rw [readFrom_openArray h hlength, readFrom_mark (by decide) rfl rfl]
    rfl
  | succ n ih =>
    have hinner : (Frame.array [] :: stack).length + n < room := by
      rw [List.length_cons]
      omega
    rw [nestedText_succ, List.append_assoc, List.cons_append, readFrom_openArray h (by omega),
      ih (.firstItem stack) hinner]
    exact readFrom_mark (by decide) rfl rfl

/-- Without it the reader stops at a bracket. -/
theorem readFrom_nestedText_of_le {n : Nat} (h : Awaiting s stack)
    (hfull : room ≤ stack.length + n) (rest : List Char) :
    readFrom room s 0 (nestedText n ++ rest) = .error (.limit (.nesting .array)) := by
  induction n generalizing s stack rest with
  | zero => exact readFrom_limit (by decide) rfl (h.step_openArray_of_le hfull)
  | succ n ih =>
    rw [nestedText_succ, List.append_assoc, List.cons_append]
    by_cases hroom : stack.length < room
    · rw [readFrom_openArray h hroom]
      apply ih (.firstItem stack)
      rw [List.length_cons]
      omega
    · exact readFrom_limit (by decide) rfl (h.step_openArray_of_le (Nat.not_lt.1 hroom))

end DependencyAudit.Json
