import DependencyAudit.Proofs.Json.QuotedText
import DependencyAudit.Proofs.Json.Steps

/-!
# Printed values

A value made of texts, arrays and objects is read back from what is printed of it, if no object
repeats a name and the nesting stays within the limit. What is printed is ASCII.
-/

namespace DependencyAudit.Json

open Text Value State

/-- Texts, arrays and objects without a repeated name, at most `depth` of them inside each other. -/
inductive Nested : Nat → Value → Prop
  | str (depth : Nat) (s : String) : Nested depth (.str s)
  | array {depth : Nat} {items : List Value} (hitems : ∀ v ∈ items, Nested depth v) :
    Nested (depth + 1) (.array items)
  | object {depth : Nat} {members : List (String × Value)}
    (hnodup : (members.map Prod.fst).Nodup) (hmembers : ∀ m ∈ members, Nested depth m.2) :
    Nested (depth + 1) (.object members)

theorem layoutItems_cons_cons (indent : Nat) (v w : Value) (items : List Value) :
    layoutItems indent (v :: w :: items) =
      newline indent ++ v.layout indent ++ ',' :: layoutItems indent (w :: items) := by
  rw [layoutItems]
  exact nofun

theorem layoutMembers_cons_cons (indent : Nat) (m n : String × Value)
    (members : List (String × Value)) : layoutMembers indent (m :: n :: members) =
      newline indent ++ quotedText m.1 ++ ':' :: ' ' :: m.2.layout indent ++
        ',' :: layoutMembers indent (n :: members) := by
  rw [layoutMembers]
  exact nofun

theorem isAscii_newline (indent : Nat) : IsAscii (newline indent) := by
  refine .cons (by decide) fun c hc => ?_
  rw [List.eq_of_mem_replicate hc]
  decide

theorem isAscii_layoutItems {indent : Nat} {items : List Value}
    (h : ∀ v ∈ items, IsAscii (v.layout indent)) : IsAscii (layoutItems indent items) := by
  induction items with
  | nil => exact nofun
  | cons v items ih =>
    obtain ⟨hv, hitems⟩ := List.forall_mem_cons.1 h
    have hfirst := (isAscii_newline indent).append hv
    cases items with
    | nil =>
      rw [layoutItems]
      exact hfirst
    | cons w items =>
      rw [layoutItems_cons_cons]
      exact hfirst.append (.cons (by decide) (ih hitems))

theorem isAscii_layoutMembers {indent : Nat} {members : List (String × Value)}
    (h : ∀ m ∈ members, IsAscii (m.2.layout indent)) : IsAscii (layoutMembers indent members) := by
  induction members with
  | nil => exact nofun
  | cons m members ih =>
    obtain ⟨hm, hmembers⟩ := List.forall_mem_cons.1 h
    have hname := (isAscii_newline indent).append (isAscii_quotedText m.1)
    have hfirst := hname.append (.cons (c := ':') (by decide) (.cons (c := ' ') (by decide) hm))
    cases members with
    | nil =>
      rw [layoutMembers]
      exact hfirst
    | cons n members =>
      rw [layoutMembers_cons_cons]
      exact hfirst.append (.cons (by decide) (ih hmembers))

theorem isAscii_layout {depth : Nat} {v : Value} (h : Nested depth v) (indent : Nat) :
    IsAscii (v.layout indent) := by
  induction h generalizing indent with
  | str depth s =>
    rw [layout]
    exact isAscii_quotedText s
  | @array depth items hitems ih =>
    cases items with
    | nil =>
      rw [layout]
      exact .cons (by decide) (.cons (by decide) nofun)
    | cons v items =>
      have hinner := isAscii_layoutItems fun w hw => ih w hw (indent + 1)
      rw [layout]
      exact (IsAscii.cons (by decide) hinner).append (isAscii_newline indent) |>.append
        (.cons (by decide) nofun)
  | @object depth members hnodup hmembers ih =>
    cases members with
    | nil =>
      rw [layout]
      exact .cons (by decide) (.cons (by decide) nofun)
    | cons m members =>
      have hinner := isAscii_layoutMembers fun n hn => ih n hn (indent + 1)
      rw [layout]
      exact (IsAscii.cons (by decide) hinner).append (isAscii_newline indent) |>.append
        (.cons (by decide) nofun)

variable {room : Nat} {state next : State} {stack : List Frame} {rest : List Char}

theorem isSpace_newline (indent : Nat) : ∀ c ∈ newline indent, isSpace c := by
  refine List.forall_mem_cons.2 ⟨rfl, fun c hc => ?_⟩
  rw [List.eq_of_mem_replicate hc]
  rfl

theorem readFrom_quotedText {s : String} (hstep : state.step room (.string s) = .ok next) :
    readFrom room state 0 (quotedText s ++ rest) = readFrom room next 0 rest :=
  readFrom_lexeme _ (by decide) (read_quotedText s rest) hstep

/-- A printed value is delivered to the innermost container, whatever follows it. -/
def ReadBack (room depth : Nat) (v : Value) : Prop :=
  ∀ indent state stack rest, Awaiting state stack → stack.length + depth ≤ room →
    readFrom room state 0 (v.layout indent ++ rest) = readFrom room (deliver v stack) 0 rest

theorem readFrom_item {depth indent : Nat} {v : Value} {done : List Value}
    (hv : ReadBack room depth v) (hawaits : Awaiting state (.array done :: stack))
    (hroom : stack.length + 1 + depth ≤ room) :
    readFrom room state 0 (newline indent ++ v.layout indent ++ rest) =
      readFrom room (.afterItem (v :: done) stack) 0 rest := by
  rw [List.append_assoc, readFrom_spaces _ (isSpace_newline indent),
    hv indent state _ rest hawaits hroom]
  rfl

theorem readFrom_layoutItems {depth indent : Nat} {items done : List Value}
    (h : ∀ v ∈ items, ReadBack room depth v) (hne : items ≠ [])
    (hawaits : Awaiting state (.array done :: stack))
    (hroom : stack.length + 1 + depth ≤ room) :
    readFrom room state 0 (layoutItems indent items ++ rest) =
      readFrom room (.afterItem (items.reverse ++ done) stack) 0 rest := by
  induction items generalizing state done with
  | nil => contradiction
  | cons v items ih =>
    obtain ⟨hv, hitems⟩ := List.forall_mem_cons.1 h
    cases items with
    | nil =>
      rw [layoutItems]
      exact readFrom_item hv hawaits hroom
    | cons w items =>
      have hcomma : readFrom room (.afterItem (v :: done) stack) 0
            (',' :: (layoutItems indent (w :: items) ++ rest)) =
          readFrom room (.value (.array (v :: done) :: stack)) 0
            (layoutItems indent (w :: items) ++ rest) := readFrom_mark (by decide) rfl rfl
      have hdone : (v :: w :: items).reverse ++ done = (w :: items).reverse ++ (v :: done) := by
        simp
      rw [layoutItems_cons_cons, List.append_assoc, List.cons_append,
        readFrom_item hv hawaits hroom, hcomma, ih hitems (List.cons_ne_nil _ _) (.value _),
        hdone]

theorem readFrom_member {depth indent : Nat} {m : String × Value} {done : List (String × Value)}
    (hm : ReadBack room depth m.2)
    (hname : state.step room (.string m.1) = .ok (.colon done m.1 stack))
    (hroom : stack.length + 1 + depth ≤ room) :
    readFrom room state 0
        (newline indent ++ quotedText m.1 ++ ':' :: ' ' :: m.2.layout indent ++ rest) =
      readFrom room (.afterMember (m :: done) stack) 0 rest := by
  have hcolon : readFrom room (.colon done m.1 stack) 0
        (':' :: ([' '] ++ (m.2.layout indent ++ rest))) =
      readFrom room (.value (.object done m.1 :: stack)) 0 (m.2.layout indent ++ rest) := by
    rw [readFrom_mark (by decide) rfl rfl, readFrom_spaces _ (List.forall_mem_singleton.2 rfl)]
  rw [List.append_assoc, List.append_assoc, readFrom_spaces _ (isSpace_newline indent),
    readFrom_quotedText hname]
  refine hcolon.trans ?_
  rw [hm indent _ (.object done m.1 :: stack) rest (.value _) hroom]
  rfl

theorem readFrom_layoutMembers {depth indent : Nat} {members done : List (String × Value)}
    (h : ∀ m ∈ members, ReadBack room depth m.2) (hne : members ≠ [])
    (hname : ∀ s, state.step room (.string s) = .ok (.colon done s stack))
    (hroom : stack.length + 1 + depth ≤ room) :
    readFrom room state 0 (layoutMembers indent members ++ rest) =
      readFrom room (.afterMember (members.reverse ++ done) stack) 0 rest := by
  induction members generalizing state done with
  | nil => contradiction
  | cons m members ih =>
    obtain ⟨hm, hmembers⟩ := List.forall_mem_cons.1 h
    cases members with
    | nil =>
      rw [layoutMembers]
      exact readFrom_member hm (hname m.1) hroom
    | cons n members =>
      have hcomma : readFrom room (.afterMember (m :: done) stack) 0
            (',' :: (layoutMembers indent (n :: members) ++ rest)) =
          readFrom room (.nextName (m :: done) stack) 0
            (layoutMembers indent (n :: members) ++ rest) := readFrom_mark (by decide) rfl rfl
      have hdone : (m :: n :: members).reverse ++ done = (n :: members).reverse ++ (m :: done) := by
        simp
      rw [layoutMembers_cons_cons, List.append_assoc, List.cons_append,
        readFrom_member hm (hname m.1) hroom, hcomma,
        ih hmembers (List.cons_ne_nil _ _) (fun _ => rfl), hdone]

theorem readBack_str (depth : Nat) (s : String) : ReadBack room depth (.str s) := by
  intro indent state stack rest hawaits _
  rw [layout, readFrom_quotedText (hawaits.step_string s)]

theorem readBack_array {depth : Nat} {items : List Value} (h : ∀ v ∈ items, ReadBack room depth v) :
    ReadBack room (depth + 1) (.array items) := by
  intro indent state stack rest hawaits hroom
  have henter : state.step room .openArray = .ok (.firstItem stack) :=
    hawaits.step_openArray (by omega)
  have hopen : ∀ rest,
      readFrom room state 0 ('[' :: rest) = readFrom room (.firstItem stack) 0 rest :=
    fun rest => readFrom_mark (by decide) rfl henter
  cases items with
  | nil =>
    rw [layout]
    change readFrom room state 0 ('[' :: ']' :: rest) = _
    rw [hopen, readFrom_mark (by decide) rfl rfl]
    rfl
  | cons v items =>
    have hclose : readFrom room (.afterItem ((v :: items).reverse ++ []) stack) 0
          (newline indent ++ (']' :: rest)) =
        readFrom room (deliver (.array (v :: items)) stack) 0 rest := by
      rw [readFrom_spaces _ (isSpace_newline indent), readFrom_mark (by decide) rfl rfl, closeArray,
        List.append_nil, List.reverse_reverse]
    rw [layout, List.append_assoc, List.append_assoc, List.cons_append, hopen,
      readFrom_layoutItems h (List.cons_ne_nil _ _) (.firstItem stack) (by omega)]
    exact hclose

theorem readBack_object {depth : Nat} {members : List (String × Value)}
    (hnodup : (members.map Prod.fst).Nodup) (h : ∀ m ∈ members, ReadBack room depth m.2) :
    ReadBack room (depth + 1) (.object members) := by
  intro indent state stack rest hawaits hroom
  have henter : state.step room .openObject = .ok (.firstName stack) :=
    hawaits.step_openObject (by omega)
  have hopen : ∀ rest,
      readFrom room state 0 ('\x7b' :: rest) = readFrom room (.firstName stack) 0 rest :=
    fun rest => readFrom_mark (by decide) rfl henter
  cases members with
  | nil =>
    rw [layout]
    change readFrom room state 0 ('\x7b' :: '\x7d' :: rest) = _
    rw [hopen, readFrom_mark (by decide) rfl rfl]
    rfl
  | cons m members =>
    have hclose : readFrom room (.afterMember ((m :: members).reverse ++ []) stack) 0
          (newline indent ++ ('\x7d' :: rest)) =
        readFrom room (deliver (.object (m :: members)) stack) 0 rest := by
      rw [readFrom_spaces _ (isSpace_newline indent), readFrom_mark (by decide) rfl rfl,
        closeObject, List.append_nil, List.reverse_reverse, Table.entries_ofList hnodup]
    rw [layout, List.append_assoc, List.append_assoc, List.cons_append, hopen,
      readFrom_layoutMembers h (List.cons_ne_nil _ _) (fun _ => rfl) (by omega)]
    exact hclose

theorem readBack_of_nested {depth : Nat} {v : Value} (h : Nested depth v) :
    ReadBack room depth v := by
  induction h with
  | str depth s => exact readBack_str depth s
  | array _ ih => exact readBack_array ih
  | object hnodup _ ih => exact readBack_object hnodup ih

theorem isAscii_pretty {depth : Nat} {v : Value} (h : Nested depth v) :
    IsAscii v.pretty.toList := by
  rw [pretty, String.toList_ofList]
  exact isAscii_layout h 0

/-- What is printed of a value is read as that value. -/
theorem parse_pretty {depth : Nat} {v : Value} (h : Nested depth v)
    (hdepth : depth ≤ room) : parse room v.pretty = .ok v := by
  have hascii := isAscii_layout h 0
  have hmark : (v.layout 0).head? ≠ some '\uFEFF' := by
    intro hhead
    exact absurd (hascii _ (List.mem_of_mem_head? hhead)) (by decide)
  have hroom : ([] : List Frame).length + depth ≤ room := by
    rwa [List.length_nil, Nat.zero_add]
  have hread := readBack_of_nested h 0 (.value []) [] [] (.value []) hroom
  rw [List.append_nil] at hread
  unfold parse pretty
  rw [String.toList_ofList, if_neg hmark, hread]
  rfl

end DependencyAudit.Json
