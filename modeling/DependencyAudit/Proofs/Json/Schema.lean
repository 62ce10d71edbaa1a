import DependencyAudit.Json.Value

/-!
# Schemas

A schema is a set of keywords. Most keywords are about values of one kind and let all others pass,
so a schema that is to hold of one kind only has to name it.
-/

namespace DependencyAudit.Json

/-- The kinds of values that schemas name. -/
inductive Kind where
  | string
  | array
  | object
  deriving DecidableEq, Repr

def Kind.admits : Kind → Value → Bool
  | string, v => v.string?.isSome
  | array, v => v.array?.isSome
  | object, v => v.object?.isSome

inductive Schema where
  | type (k : Kind)
  | minLength (n : Nat)
  | minItems (n : Nat)
  | items (schema : Schema)
  | required (names : List String)
  | property (name : String) (schema : Schema)
  | keywords (schemas : List Schema)
  | oneOf (schemas : List Schema)

namespace Schema

mutual

def accepts : Schema → Value → Bool
  | type k, v => k.admits v
  | minLength n, v => v.string?.all fun s => decide (n ≤ s.length)
  | minItems n, v => v.array?.all fun items => decide (n ≤ items.length)
  | items schema, v => v.array?.all fun items => items.all fun item => schema.accepts item
  | required names, v => v.object?.all fun members =>
    names.all fun name => (Value.member? members name).isSome
  | property name schema, v => v.object?.all fun members =>
    (Value.member? members name).all fun w => schema.accepts w
  | keywords schemas, v => allAccept schemas v
  | oneOf schemas, v => countAccepting schemas v == 1

def allAccept : List Schema → Value → Bool
  | [], _ => true
  | schema :: schemas, v => schema.accepts v && allAccept schemas v

def countAccepting : List Schema → Value → Nat
  | [], _ => 0
  | schema :: schemas, v => (schema.accepts v).toNat + countAccepting schemas v

end

variable {v : Value} {schema : Schema} {schemas : List Schema} {name : String}

theorem accepts_string_iff : (type .string).accepts v ↔ ∃ s, v = .str s := by
  cases v <;> simp [accepts, Kind.admits, Value.string?]

theorem accepts_array_iff : (type .array).accepts v ↔ ∃ items, v = .array items := by
  cases v <;> simp [accepts, Kind.admits, Value.array?]

theorem accepts_object_iff : (type .object).accepts v ↔ ∃ members, v = .object members := by
  cases v <;> simp [accepts, Kind.admits, Value.object?]

theorem accepts_keywords_iff :
    (keywords schemas).accepts v ↔ ∀ schema ∈ schemas, schema.accepts v := by
  change allAccept schemas v ↔ _
  induction schemas with
  | nil => exact iff_of_true rfl nofun
  | cons schema schemas ih =>
    rw [allAccept, Bool.and_eq_true, ih, List.forall_mem_cons]

theorem accepts_oneOf_iff :
    (oneOf schemas).accepts v ↔ schemas.countP (fun schema => schema.accepts v) = 1 := by
  have hcount : countAccepting schemas v = schemas.countP fun schema => schema.accepts v := by
    induction schemas with
    | nil => rfl
    | cons schema schemas ih =>
      rw [countAccepting, ih, List.countP_cons, Nat.add_comm]
      cases schema.accepts v <;> rfl
  rw [← hcount]
  exact beq_iff_eq

/-- One of two schemas that exclude each other. -/
theorem accepts_oneOf_pair_iff {schema' : Schema}
    (h : ¬ (schema.accepts v ∧ schema'.accepts v)) :
    (oneOf [schema, schema']).accepts v ↔ schema.accepts v ∨ schema'.accepts v := by
  rw [accepts_oneOf_iff, List.countP_cons, List.countP_cons, List.countP_nil]
  by_cases hv : schema.accepts v
  · have hv' : ¬ schema'.accepts v := fun hv' => h ⟨hv, hv'⟩
    simp [hv, hv']
  · by_cases hv' : schema'.accepts v <;> simp [hv, hv']

theorem accepts_items_array_iff {values : List Value} :
    (items schema).accepts (.array values) ↔ ∀ v ∈ values, schema.accepts v := by
  rw [accepts]
  exact List.all_eq_true

theorem accepts_required_object_iff {members : List (String × Value)} {names : List String} :
    (required names).accepts (.object members) ↔
      ∀ name ∈ names, ∃ v, Value.member? members name = some v := by
  rw [accepts]
  change (names.all fun name => (Value.member? members name).isSome) = true ↔ _
  simp only [List.all_eq_true, Option.isSome_iff_exists]

theorem accepts_property_object_iff {members : List (String × Value)} :
    (property name schema).accepts (.object members) ↔
      ∀ v, Value.member? members name = some v → schema.accepts v := by
  rw [accepts]
  change (Value.member? members name).all (fun w => schema.accepts w) = true ↔ _
  cases Value.member? members name <;> simp

/-- Arrays with items of one schema. -/
theorem accepts_list_iff : (keywords [type .array, items schema]).accepts v ↔
    ∃ values, v = .array values ∧ ∀ v ∈ values, schema.accepts v := by
  rw [accepts_keywords_iff, List.forall_mem_cons, List.forall_mem_singleton, accepts_array_iff]
  constructor
  · rintro ⟨⟨values, rfl⟩, hitems⟩
    exact ⟨values, rfl, accepts_items_array_iff.1 hitems⟩
  · rintro ⟨values, rfl, hitems⟩
    exact ⟨⟨values, rfl⟩, accepts_items_array_iff.2 hitems⟩

/-- Objects with certain members, each of a schema of its own. -/
theorem accepts_record_iff (fields : List (String × Schema)) :
    (keywords (type .object :: required (fields.map Prod.fst) ::
      fields.map fun f => property f.1 f.2)).accepts v ↔
      ∃ members, v = .object members ∧
        ∀ f ∈ fields, ∃ w, Value.member? members f.1 = some w ∧ f.2.accepts w := by
  rw [accepts_keywords_iff, List.forall_mem_cons, List.forall_mem_cons, List.forall_mem_map,
    accepts_object_iff]
  constructor
  · rintro ⟨⟨members, rfl⟩, hrequired, hproperties⟩
    refine ⟨members, rfl, fun f hf => ?_⟩
    obtain ⟨w, hw⟩ := accepts_required_object_iff.1 hrequired f.1 (List.mem_map_of_mem hf)
    exact ⟨w, hw, accepts_property_object_iff.1 (hproperties f hf) w hw⟩
  · rintro ⟨members, rfl, hfields⟩
    refine ⟨⟨members, rfl⟩, accepts_required_object_iff.2 ?_, fun f hf => ?_⟩
    · intro name hname
      obtain ⟨f, hf, rfl⟩ := List.mem_map.1 hname
      obtain ⟨w, hw, -⟩ := hfields f hf
      exact ⟨w, hw⟩
    · apply accepts_property_object_iff.2
      intro v hv
      obtain ⟨w, hw, haccepts⟩ := hfields f hf
      rwa [Option.some.inj (hv.symm.trans hw)]

end Schema
end DependencyAudit.Json
