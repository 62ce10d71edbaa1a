import Mathlib.Data.List.Induction
import Mathlib.Data.List.Nodup
import DependencyAudit.Table

/-!
# Tables of lists

A table made of a list has the keys in the order in which they first come, each with the value that
comes last. Two tables with the same keys in the same order and with the same values are equal.
-/

namespace DependencyAudit

section

variable {α : Type} [DecidableEq α]

theorem eraseDups_concat (xs : List α) (x : α) :
    (xs ++ [x]).eraseDups = if x ∈ xs then xs.eraseDups else xs.eraseDups ++ [x] := by
  rw [List.eraseDups_append]
  by_cases h : x ∈ xs <;> simp [List.removeAll, List.eraseDups_cons, h]

theorem nodup_eraseDups (xs : List α) : xs.eraseDups.Nodup := by
  induction xs using List.reverseRecOn with
  | nil => simp
  | append_singleton xs x ih =>
    rw [eraseDups_concat]
    split
    · exact ih
    · rename_i h
      have hx : x ∉ xs.eraseDups := by simpa using h
      exact List.nodup_append_comm.1 (List.nodup_cons.2 ⟨hx, ih⟩)

theorem eraseDups_of_nodup {xs : List α} (h : xs.Nodup) : xs.eraseDups = xs := by
  induction xs using List.reverseRecOn with
  | nil => rfl
  | append_singleton xs x ih =>
    obtain ⟨hxs, -, hne⟩ := List.nodup_append.1 h
    have hx : x ∉ xs := fun hmem => hne x hmem x List.mem_cons_self rfl
    rw [eraseDups_concat, if_neg hx, ih hxs]

/-- What is left stands in the order of the first occurrences. -/
theorem pairwise_idxOf_eraseDups (xs : List α) :
    xs.eraseDups.Pairwise fun x y => xs.idxOf x < xs.idxOf y := by
  induction xs using List.reverseRecOn with
  | nil => exact .nil
  | append_singleton xs x ih =>
    have hold : ∀ y ∈ xs.eraseDups, (xs ++ [x]).idxOf y = xs.idxOf y :=
      fun y hy => List.idxOf_append_of_mem (List.mem_eraseDups.1 hy)
    have hpairwise :
        xs.eraseDups.Pairwise fun y z => (xs ++ [x]).idxOf y < (xs ++ [x]).idxOf z := by
      refine ih.imp_of_mem fun hy hz hlt => ?_
      rwa [hold _ hy, hold _ hz]
    rw [eraseDups_concat]
    split
    · exact hpairwise
    · rename_i hx
      refine List.pairwise_append.2 ⟨hpairwise, List.pairwise_singleton _ _, ?_⟩
      intro y hy z hz
      rw [List.mem_singleton.1 hz, hold y hy, List.idxOf_append_of_notMem hx]
      exact Nat.lt_add_right _ (List.idxOf_lt_length_of_mem (List.mem_eraseDups.1 hy))

theorem eraseDups_append_eraseDups (xs ys : List α) :
    (xs ++ ys.eraseDups).eraseDups = (xs ++ ys).eraseDups := by
  induction ys using List.reverseRecOn with
  | nil => rfl
  | append_singleton ys y ih =>
    by_cases hy : y ∈ ys
    · have hmem : y ∈ xs ++ ys := List.mem_append_right xs hy
      rw [eraseDups_concat, if_pos hy, ih, ← List.append_assoc, eraseDups_concat, if_pos hmem]
    · have hmem : y ∈ xs ++ ys.eraseDups ↔ y ∈ xs ++ ys := by
        simp only [List.mem_append, List.mem_eraseDups]
      rw [eraseDups_concat, if_neg hy, ← List.append_assoc, ← List.append_assoc, eraseDups_concat,
        eraseDups_concat, ih, if_congr hmem rfl rfl]

theorem eraseDups_eraseDups_append (xs ys : List α) :
    (xs.eraseDups ++ ys).eraseDups = (xs ++ ys).eraseDups := by
  induction ys using List.reverseRecOn with
  | nil => rw [List.append_nil, List.append_nil, eraseDups_of_nodup (nodup_eraseDups xs)]
  | append_singleton ys y ih =>
    have hmem : y ∈ xs.eraseDups ++ ys ↔ y ∈ xs ++ ys := by
      simp only [List.mem_append, List.mem_eraseDups]
    rw [← List.append_assoc, ← List.append_assoc, eraseDups_concat, eraseDups_concat, ih,
      if_congr hmem rfl rfl]

theorem eraseDups_append_map_const {β : Type} (xs : List α) (a : α) {ys : List β} (h : ys ≠ []) :
    (xs ++ ys.map fun _ => a).eraseDups = (xs ++ [a]).eraseDups := by
  induction ys generalizing xs with
  | nil => contradiction
  | cons y ys ih =>
    rw [List.map_cons, ← List.singleton_append, ← List.append_assoc]
    by_cases hys : ys = []
    · rw [hys, List.map_nil, List.append_nil]
    · rw [ih (xs ++ [a]) hys, eraseDups_concat, if_pos (by simp)]

theorem eraseDups_flatMap_const {β : Type} {es : List (α × List β)} (h : ∀ e ∈ es, e.2 ≠ []) :
    (es.flatMap fun e => e.2.map fun _ => e.1).eraseDups = (es.map Prod.fst).eraseDups := by
  induction es using List.reverseRecOn with
  | nil => rfl
  | append_singleton es e ih =>
    have hes := ih fun e' he' => h e' (List.mem_append_left _ he')
    have hmem : e.1 ∈ (es.flatMap fun e => e.2.map fun _ => e.1) ↔ e.1 ∈ es.map Prod.fst := by
      rw [← List.mem_eraseDups, hes, List.mem_eraseDups]
    rw [List.flatMap_append, List.flatMap_singleton, List.map_append, List.map_singleton,
      eraseDups_append_map_const _ _ (h e (by simp)), eraseDups_concat, eraseDups_concat, hes,
      if_congr hmem rfl rfl]

end

namespace Table

variable {κ α : Type} [DecidableEq κ]

theorem entries_eq_of_lookup_eq {es fs : List (κ × α)} (h : (es.map Prod.fst).Nodup)
    (hkeys : es.map Prod.fst = fs.map Prod.fst) (hlookup : ∀ k, es.lookup k = fs.lookup k) :
    es = fs := by
  induction es generalizing fs with
  | nil => exact (List.map_eq_nil_iff.1 hkeys.symm).symm
  | cons e es ih =>
    cases fs with
    | nil => contradiction
    | cons f fs =>
      rw [List.map_cons, List.map_cons, List.cons.injEq] at hkeys
      rw [List.map_cons, List.nodup_cons] at h
      have hhead := hlookup e.1
      rw [lookup_cons, lookup_cons, if_pos rfl, if_pos hkeys.1, Option.some.injEq] at hhead
      have htail : es = fs := by
        refine ih h.2 hkeys.2 fun k => ?_
        by_cases hk : k = e.1
        · rw [(lookup_eq_none_iff es k).2 (hk ▸ h.1),
            (lookup_eq_none_iff fs k).2 (hk ▸ hkeys.2 ▸ h.1)]
        · have hcons := hlookup k
          rwa [lookup_cons, lookup_cons, if_neg hk, if_neg (hkeys.1 ▸ hk)] at hcons
      rw [htail, Prod.ext hkeys.1 hhead]

theorem lookup_reverse {es : List (κ × α)} (h : (es.map Prod.fst).Nodup) (k : κ) :
    es.reverse.lookup k = es.lookup k := by
  have hreverse : (es.reverse.map Prod.fst).Nodup := by
    rw [List.map_reverse]
    exact List.nodup_reverse.2 h
  ext a
  rw [lookup_eq_some_iff hreverse, lookup_eq_some_iff h, List.mem_reverse]

theorem lookup_reverse_append_cons (es : List (κ × α)) {k : κ} (a : α) {fs : List (κ × α)}
    (h : k ∉ fs.map Prod.fst) : (es ++ (k, a) :: fs).reverse.lookup k = some a := by
  have hlater : fs.reverse.lookup k = none := by
    rw [lookup_eq_none_iff, List.map_reverse, List.mem_reverse]
    exact h
  rw [List.reverse_append, List.reverse_cons, List.append_assoc, List.lookup_append, hlater,
    Option.none_or, List.singleton_append, lookup_cons, if_pos rfl]

theorem ext_find? {t u : Table κ α} (hkeys : t.keys = u.keys) (h : ∀ k, t.find? k = u.find? k) :
    t = u := Table.ext (entries_eq_of_lookup_eq t.nodup hkeys h)

theorem lookup_map {β : Type} (f : α → β) (es : List (κ × α)) (k : κ) :
    (es.map fun e => (e.1, f e.2)).lookup k = (es.lookup k).map f := by
  induction es with
  | nil => rfl
  | cons e es ih =>
    rw [List.map_cons, lookup_cons, lookup_cons, ih]
    split <;> rfl

theorem find?_mapValues {β : Type} (f : α → β) (t : Table κ α) (k : κ) :
    (t.mapValues f).find? k = (t.find? k).map f := lookup_map f t.entries k

theorem insertAll_concat (t : Table κ α) (es : List (κ × α)) (e : κ × α) :
    t.insertAll (es ++ [e]) = (t.insertAll es).insert e.1 e.2 := insertAll_append t es [e]

theorem ofList_concat (es : List (κ × α)) (e : κ × α) :
    ofList (es ++ [e]) = (ofList es).insert e.1 e.2 := insertAll_concat empty es e

theorem keys_insertAll (t : Table κ α) (es : List (κ × α)) :
    (t.insertAll es).keys = (t.keys ++ es.map Prod.fst).eraseDups := by
  induction es using List.reverseRecOn with
  | nil =>
    rw [List.map_nil, List.append_nil, eraseDups_of_nodup t.nodup_keys]
    rfl
  | append_singleton es e ih =>
    rw [insertAll_concat, keys_insert, ih, List.map_append, List.map_singleton,
      ← List.append_assoc, eraseDups_concat]
    simp only [List.mem_eraseDups]

theorem keys_ofList (es : List (κ × α)) : (ofList es).keys = (es.map Prod.fst).eraseDups :=
  keys_insertAll empty es

theorem find?_insertAll (t : Table κ α) (es : List (κ × α)) (k : κ) :
    (t.insertAll es).find? k = (es.reverse.lookup k).or (t.find? k) := by
  induction es using List.reverseRecOn with
  | nil => rfl
  | append_singleton es e ih =>
    rw [insertAll_concat, find?_insert, ih, List.reverse_append, List.reverse_singleton,
      List.singleton_append, lookup_cons]
    split <;> rfl

/-- The value that comes last counts. -/
theorem find?_ofList (es : List (κ × α)) (k : κ) : (ofList es).find? k = es.reverse.lookup k := by
  rw [ofList, find?_insertAll, find?_empty, Option.or_none]

theorem entries_ofList {es : List (κ × α)} (h : (es.map Prod.fst).Nodup) :
    (ofList es).entries = es := by
  apply entries_eq_of_lookup_eq (ofList es).nodup
  · exact (keys_ofList es).trans (eraseDups_of_nodup h)
  · intro k
    rw [← lookup_reverse h]
    exact find?_ofList es k

/-- Collecting entries before they are added changes nothing. -/
theorem insertAll_ofList (t : Table κ α) (es : List (κ × α)) :
    t.insertAll (ofList es).entries = t.insertAll es := by
  apply ext_find?
  · have hkeys : (ofList es).entries.map Prod.fst = (es.map Prod.fst).eraseDups := keys_ofList es
    rw [keys_insertAll, keys_insertAll, hkeys, eraseDups_append_eraseDups]
  · intro k
    rw [find?_insertAll, find?_insertAll, lookup_reverse (ofList es).nodup, ← find?_ofList]
    rfl

theorem mem_of_lookup_eq_some {es : List (κ × α)} {k : κ} {a : α} (h : es.lookup k = some a) :
    (k, a) ∈ es := by
  induction es with
  | nil => contradiction
  | cons e es ih =>
    rw [lookup_cons] at h
    split at h
    · rename_i hk
      rw [hk, ← Option.some.inj h]
      exact List.mem_cons_self
    · exact List.mem_cons_of_mem _ (ih h)

theorem mem_of_mem_entries_ofList {es : List (κ × α)} {e : κ × α} (h : e ∈ (ofList es).entries) :
    e ∈ es := by
  have hfind := (find?_eq_some_iff _ e.1 e.2).2 h
  rw [find?_ofList] at hfind
  exact List.mem_reverse.1 (mem_of_lookup_eq_some hfind)

theorem find?_insertNew (t : Table κ α) (k k' : κ) (a : α) :
    (t.insertNew k a).find? k' = (t.find? k').or (if k' = k then some a else none) := by
  by_cases hk : k' = k
  · subst hk
    rw [if_pos rfl]
    by_cases hmem : k' ∈ t.keys
    · obtain ⟨b, hb⟩ := (t.mem_keys_iff k').1 hmem
      rw [insertNew_of_mem hmem, hb, Option.some_or]
    · rw [insertNew_of_notMem hmem, find?_insert, if_pos rfl, (t.find?_eq_none_iff k').2 hmem,
        Option.none_or]
  · rw [if_neg hk, Option.or_none]
    by_cases hmem : k ∈ t.keys
    · rw [insertNew_of_mem hmem]
    · rw [insertNew_of_notMem hmem, find?_insert, if_neg hk]

theorem keys_insertAllNew (t : Table κ α) (es : List (κ × α)) :
    (t.insertAllNew es).keys = (t.keys ++ es.map Prod.fst).eraseDups := by
  induction es using List.reverseRecOn with
  | nil =>
    rw [List.map_nil, List.append_nil, eraseDups_of_nodup t.nodup_keys]
    rfl
  | append_singleton es e ih =>
    rw [insertAllNew_append, List.map_append, List.map_singleton, ← List.append_assoc,
      eraseDups_concat]
    change ((t.insertAllNew es).insertNew e.1 e.2).keys = _
    rw [keys_insertNew, ih]
    simp only [List.mem_eraseDups]

/-- The value that comes first counts. -/
theorem find?_insertAllNew (t : Table κ α) (es : List (κ × α)) (k : κ) :
    (t.insertAllNew es).find? k = (t.find? k).or (es.lookup k) := by
  induction es generalizing t with
  | nil => exact Option.or_none.symm
  | cons e es ih =>
    change ((t.insertNew e.1 e.2).insertAllNew es).find? k = _
    rw [ih, find?_insertNew, Option.or_assoc, lookup_cons]
    split <;> simp

/-- Merging entries before they are added changes nothing. -/
theorem insertAllNew_insertAllNew (t : Table κ α) (es : List (κ × α)) :
    t.insertAllNew (empty.insertAllNew es).entries = t.insertAllNew es := by
  apply ext_find?
  · have hkeys : (empty.insertAllNew es).entries.map Prod.fst = (es.map Prod.fst).eraseDups :=
      keys_insertAllNew empty es
    rw [keys_insertAllNew, keys_insertAllNew, hkeys, eraseDups_append_eraseDups]
  · intro k
    have hmerged : (empty.insertAllNew es).entries.lookup k = es.lookup k :=
      (find?_insertAllNew empty es k).trans (by rw [find?_empty, Option.none_or])
    rw [find?_insertAllNew, find?_insertAllNew, hmerged]

theorem ofList_map {β : Type} (f : α → β) (es : List (κ × α)) :
    ofList (es.map fun e => (e.1, f e.2)) = (ofList es).mapValues f := by
  apply ext_find?
  · rw [keys_mapValues, keys_ofList, keys_ofList, List.map_map]
    rfl
  · intro k
    induction es using List.reverseRecOn with
    | nil => rfl
    | append_singleton es e ih =>
      rw [List.map_append, List.map_singleton, ofList_concat, ofList_concat, find?_insert,
        find?_mapValues, find?_insert, ih, find?_mapValues]
      split <;> rfl

/-- The table that comes of inserting the entries one after the other: each key stands where it
first comes and has its last value. -/
structure Collects (es : List (κ × α)) (t : Table κ α) : Prop where
  eq_ofList : t = ofList es
  keys_eq : t.keys = (es.map Prod.fst).eraseDups
  find?_eq : ∀ k, t.find? k = es.reverse.lookup k

theorem collects_ofList (es : List (κ × α)) : Collects es (ofList es) :=
  ⟨rfl, keys_ofList es, find?_ofList es⟩

end Table
end DependencyAudit
