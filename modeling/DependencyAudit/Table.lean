/-!
# Tables

A table holds entries with distinct keys in the order in which the keys first came. `insert`
replaces the value of a key that is there and keeps its place; `insertNew` leaves it as it is.
-/

namespace DependencyAudit

@[ext] structure Table (κ α : Type) where
  entries : List (κ × α)
  nodup : (entries.map Prod.fst).Nodup
  deriving DecidableEq

namespace Table

variable {κ α : Type}

def empty : Table κ α := ⟨[], by simp⟩

def keys (t : Table κ α) : List κ := t.entries.map Prod.fst

def values (t : Table κ α) : List α := t.entries.map Prod.snd

@[simp] theorem keys_empty : (empty : Table κ α).keys = [] := rfl

theorem nodup_keys (t : Table κ α) : t.keys.Nodup := t.nodup

def mapValues {β : Type} (f : α → β) (t : Table κ α) : Table κ β :=
  ⟨t.entries.map fun e => (e.1, f e.2), by simpa [Function.comp_def] using t.nodup⟩

@[simp] theorem keys_mapValues {β : Type} (f : α → β) (t : Table κ α) :
    (t.mapValues f).keys = t.keys := by
  simp [mapValues, keys, Function.comp_def]

def filterKeys (p : κ → Bool) (t : Table κ α) : Table κ α :=
  ⟨t.entries.filter fun e => p e.1, t.nodup.sublist (List.filter_sublist.map _)⟩

@[simp] theorem keys_filterKeys (p : κ → Bool) (t : Table κ α) :
    (t.filterKeys p).keys = t.keys.filter p := by
  simp [filterKeys, keys, List.filter_map, Function.comp_def]

variable [DecidableEq κ]

def find? (t : Table κ α) (k : κ) : Option α := t.entries.lookup k

def contains (t : Table κ α) (k : κ) : Bool := t.keys.contains k

@[simp] theorem find?_empty (k : κ) : (empty : Table κ α).find? k = none := rfl

theorem contains_iff (t : Table κ α) (k : κ) : t.contains k ↔ k ∈ t.keys := by simp [contains]

theorem lookup_cons (e : κ × α) (es : List (κ × α)) (k : κ) :
    (e :: es).lookup k = if k = e.1 then some e.2 else es.lookup k := by
  obtain ⟨l, a⟩ := e
  rw [List.lookup_cons]
  by_cases h : k = l
  · simp [h]
  · simp [h, beq_eq_false_iff_ne.2 h]

theorem lookup_eq_none_iff (es : List (κ × α)) (k : κ) :
    es.lookup k = none ↔ k ∉ es.map Prod.fst := by
  induction es with
  | nil => simp
  | cons e es ih =>
    rw [lookup_cons, List.map_cons, List.mem_cons, not_or]
    by_cases h : k = e.1
    · simp [h]
    · rw [if_neg h, ih]
      exact ⟨fun hk => ⟨h, hk⟩, fun hk => hk.2⟩

theorem find?_eq_none_iff (t : Table κ α) (k : κ) : t.find? k = none ↔ k ∉ t.keys :=
  lookup_eq_none_iff t.entries k

theorem lookup_eq_some_iff {es : List (κ × α)} (h : (es.map Prod.fst).Nodup) (k : κ) (a : α) :
    es.lookup k = some a ↔ (k, a) ∈ es := by
  induction es with
  | nil => simp
  | cons e es ih =>
    rw [List.map_cons, List.nodup_cons] at h
    rw [lookup_cons, List.mem_cons]
    by_cases hk : k = e.1
    · subst hk
      have hnot : (e.1, a) ∉ es := fun hm => h.1 (List.mem_map.2 ⟨_, hm, rfl⟩)
      rw [if_pos rfl, Option.some.injEq, or_iff_left hnot]
      exact ⟨fun ha => by rw [← ha], fun ha => by rw [← ha]⟩
    · rw [if_neg hk, ih h.2]
      exact ⟨Or.inr, fun hm => hm.resolve_left fun he => hk (congrArg Prod.fst he)⟩

theorem find?_eq_some_iff (t : Table κ α) (k : κ) (a : α) :
    t.find? k = some a ↔ (k, a) ∈ t.entries := lookup_eq_some_iff t.nodup k a

theorem mem_keys_iff (t : Table κ α) (k : κ) : k ∈ t.keys ↔ ∃ a, t.find? k = some a := by
  rw [← Option.ne_none_iff_exists', ne_eq, find?_eq_none_iff, Decidable.not_not]

theorem values_eq_map_keys {t : Table κ α} {f : κ → α}
    (h : ∀ k a, t.find? k = some a → a = f k) : t.values = t.keys.map f := by
  rw [values, keys, List.map_map]
  apply List.map_congr_left
  intro e he
  exact h e.1 e.2 ((find?_eq_some_iff t e.1 e.2).2 he)

theorem lookup_filter_fst (p : κ → Bool) (es : List (κ × α)) (k : κ) :
    (es.filter fun e => p e.1).lookup k = if p k then es.lookup k else none := by
  induction es with
  | nil => simp
  | cons e es ih =>
    by_cases hk : k = e.1
    · subst hk
      by_cases hp : p e.1 <;> simp [lookup_cons, hp, ih]
    · by_cases hp : p e.1 <;> simp [lookup_cons, hp, ih, hk]

theorem find?_filterKeys (p : κ → Bool) (t : Table κ α) (k : κ) :
    (t.filterKeys p).find? k = if p k then t.find? k else none := lookup_filter_fst p t.entries k

def insertEntry (k : κ) (a : α) : List (κ × α) → List (κ × α)
  | [] => [(k, a)]
  | e :: es => if e.1 = k then (k, a) :: es else e :: insertEntry k a es

theorem keys_insertEntry (k : κ) (a : α) (es : List (κ × α)) :
    (insertEntry k a es).map Prod.fst =
      if k ∈ es.map Prod.fst then es.map Prod.fst else es.map Prod.fst ++ [k] := by
  induction es with
  | nil => simp [insertEntry]
  | cons e es ih =>
    by_cases h : e.1 = k
    · simp [insertEntry, h]
    · have h' : ¬ k = e.1 := fun he => h he.symm
      simp only [insertEntry, h, ↓reduceIte, List.map_cons, ih, List.mem_cons, h', false_or]
      split <;> simp

theorem nodup_insertEntry {k : κ} {a : α} {es : List (κ × α)} (h : (es.map Prod.fst).Nodup) :
    ((insertEntry k a es).map Prod.fst).Nodup := by
  rw [keys_insertEntry]
  split
  · exact h
  · rw [List.nodup_append]
    refine ⟨h, by simp, ?_⟩
    intro x hx y hy hxy
    rw [List.mem_singleton] at hy
    subst hy hxy
    contradiction

theorem lookup_insertEntry (k k' : κ) (a : α) (es : List (κ × α)) :
    (insertEntry k a es).lookup k' = if k' = k then some a else es.lookup k' := by
  induction es with
  | nil => simp [insertEntry, lookup_cons]
  | cons e es ih =>
    by_cases h : e.1 = k
    · by_cases hk : k' = k <;> simp [insertEntry, lookup_cons, h, hk]
    · by_cases hk : k' = e.1
      · simp [insertEntry, lookup_cons, h, hk]
      · simp [insertEntry, lookup_cons, h, hk, ih]

def insert (t : Table κ α) (k : κ) (a : α) : Table κ α :=
  ⟨insertEntry k a t.entries, nodup_insertEntry t.nodup⟩

theorem insertEntry_of_notMem {k : κ} {es : List (κ × α)} (h : k ∉ es.map Prod.fst) (a : α) :
    insertEntry k a es = es ++ [(k, a)] := by
  induction es with
  | nil => rfl
  | cons e es ih =>
    rw [List.map_cons, List.mem_cons, not_or] at h
    rw [insertEntry, if_neg (Ne.symm h.1), ih h.2, List.cons_append]

theorem entries_insert_of_notMem {t : Table κ α} {k : κ} (h : k ∉ t.keys) (a : α) :
    (t.insert k a).entries = t.entries ++ [(k, a)] := insertEntry_of_notMem h a

theorem keys_insert (t : Table κ α) (k : κ) (a : α) :
    (t.insert k a).keys = if k ∈ t.keys then t.keys else t.keys ++ [k] :=
  keys_insertEntry k a t.entries

theorem find?_insert (t : Table κ α) (k k' : κ) (a : α) :
    (t.insert k a).find? k' = if k' = k then some a else t.find? k' :=
  lookup_insertEntry k k' a t.entries

def insertNew (t : Table κ α) (k : κ) (a : α) : Table κ α :=
  if t.contains k then t else t.insert k a

theorem insertNew_of_mem {t : Table κ α} {k : κ} (h : k ∈ t.keys) (a : α) :
    t.insertNew k a = t := if_pos ((contains_iff t k).2 h)

theorem insertNew_of_notMem {t : Table κ α} {k : κ} (h : k ∉ t.keys) (a : α) :
    t.insertNew k a = t.insert k a := if_neg (mt (contains_iff t k).1 h)

theorem keys_insertNew (t : Table κ α) (k : κ) (a : α) :
    (t.insertNew k a).keys = if k ∈ t.keys then t.keys else t.keys ++ [k] := by
  by_cases h : k ∈ t.keys
  · simp [insertNew, (contains_iff t k).2 h, h]
  · simp [insertNew, mt (contains_iff t k).1 h, keys_insert, h]

def erase (t : Table κ α) (k : κ) : Table κ α := t.filterKeys (· ≠ k)

@[simp] theorem keys_erase (t : Table κ α) (k : κ) : (t.erase k).keys = t.keys.filter (· ≠ k) := by
  simp [erase]

theorem erase_of_notMem {t : Table κ α} {k : κ} (h : k ∉ t.keys) : t.erase k = t := by
  apply Table.ext
  apply List.filter_eq_self.2
  intro e he
  have hne : e.1 ≠ k := fun hk => h (hk ▸ List.mem_map_of_mem he)
  simpa using hne

theorem find?_erase (t : Table κ α) (k k' : κ) :
    (t.erase k).find? k' = if k' = k then none else t.find? k' := by
  by_cases h : k' = k <;> simp [erase, find?_filterKeys, h]

/-- A later value of a key replaces an earlier one in its place. -/
def insertAll (t : Table κ α) (es : List (κ × α)) : Table κ α :=
  es.foldl (fun t e => t.insert e.1 e.2) t

/-- The first value of a key stays. -/
def insertAllNew (t : Table κ α) (es : List (κ × α)) : Table κ α :=
  es.foldl (fun t e => t.insertNew e.1 e.2) t

def ofList (es : List (κ × α)) : Table κ α := empty.insertAll es

theorem insertAll_append (t : Table κ α) (es fs : List (κ × α)) :
    t.insertAll (es ++ fs) = (t.insertAll es).insertAll fs := by
  simp [insertAll]

theorem insertAllNew_append (t : Table κ α) (es fs : List (κ × α)) :
    t.insertAllNew (es ++ fs) = (t.insertAllNew es).insertAllNew fs := by
  simp [insertAllNew]

end Table
end DependencyAudit
