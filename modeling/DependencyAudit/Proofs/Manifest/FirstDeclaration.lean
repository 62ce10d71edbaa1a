import DependencyAudit.Manifest
import DependencyAudit.Proofs.TableOfList

/-!
# First declarations

The four sections are read in one order, those for production before those for development. Merging
each of the two groups and then the groups leaves every name where it first occurs in that order,
with what is displayed of its value there.
-/

namespace DependencyAudit.Manifest

open Json

def sections : List String :=
  ["dependencies", "optionalDependencies", "devDependencies", "peerDependencies"]

/-- The members of a section; one that is absent or is no object has none. -/
def members (document : List (String × Value)) (title : String) : List (String × Value) :=
  match Value.member? document title with
  | some (.object members) => members
  | _ => []

/-- The members of all sections as they are read. -/
def occurrences (document : List (String × Value)) : List (String × Value) :=
  sections.flatMap (members document)

/-- The name first occurs with the value. -/
def FirstIn (members : List (String × Value)) (name : String) (v : Value) : Prop :=
  ∃ before after, members = before ++ (name, v) :: after ∧ name ∉ before.map Prod.fst

/-- The table has every name of an object under a title of a section once, in the order of the first
occurrences and with what is displayed there. -/
structure FirstDeclared (document : List (String × Value)) (declared : Table String String) :
    Prop where
  mem_keys_iff : ∀ name, name ∈ declared.keys ↔ ∃ title ∈ sections, ∃ members,
    Value.member? document title = some (.object members) ∧ name ∈ members.map Prod.fst
  nodup_keys : declared.keys.Nodup
  ordered : declared.keys.Pairwise fun name name' =>
    ((occurrences document).map Prod.fst).idxOf name <
      ((occurrences document).map Prod.fst).idxOf name'
  find?_eq_some_iff : ∀ name range, declared.find? name = some range ↔
    ∃ v, FirstIn (occurrences document) name v ∧ range = v.display

section

variable {document document' : List (String × Value)} {name : String}

theorem firstIn_iff {members : List (String × Value)} {v : Value} :
    FirstIn members name v ↔ members.lookup name = some v := by
  rw [List.lookup_eq_some_iff]
  refine exists₂_congr fun before after => and_congr_right fun _ => ?_
  rw [List.mem_map, not_exists]
  refine forall_congr' fun m => ?_
  rw [not_and, bne_iff_ne, ne_comm]

theorem mem_members_iff {title : String} {m : String × Value} :
    m ∈ members document title ↔
      ∃ members, Value.member? document title = some (.object members) ∧ m ∈ members := by
  unfold members
  split
  · rename_i members h
    rw [h]
    constructor
    · exact fun hm => ⟨members, rfl, hm⟩
    · rintro ⟨_, ⟨⟩, hm⟩
      exact hm
  · rename_i hother
    refine iff_of_false List.not_mem_nil ?_
    rintro ⟨members, h, -⟩
    exact hother members h

theorem mem_map_occurrences_iff :
    name ∈ (occurrences document).map Prod.fst ↔ ∃ title ∈ sections, ∃ members,
      Value.member? document title = some (.object members) ∧ name ∈ members.map Prod.fst := by
  constructor
  · intro h
    obtain ⟨m, hm, rfl⟩ := List.mem_map.1 h
    obtain ⟨title, htitle, hmember⟩ := List.mem_flatMap.1 hm
    obtain ⟨members, hsection, hmem⟩ := mem_members_iff.1 hmember
    exact ⟨title, htitle, members, hsection, List.mem_map_of_mem hmem⟩
  · rintro ⟨title, htitle, members, hsection, h⟩
    obtain ⟨m, hm, rfl⟩ := List.mem_map.1 h
    exact List.mem_map_of_mem
      (List.mem_flatMap.2 ⟨title, htitle, mem_members_iff.2 ⟨members, hsection, hm⟩⟩)

theorem declarations_eq (title : String) :
    declarations document title = (members document title).map fun m => (m.1, m.2.display) := by
  unfold declarations members
  cases Value.member? document title with
  | none => rfl
  | some v => cases v <;> rfl

/-- The two merges, in each group and of the groups, are one. -/
theorem declared_ofDocument (document : List (String × Value)) :
    (ofDocument document).declared =
      Table.empty.insertAllNew ((occurrences document).map fun m => (m.1, m.2.display)) := by
  have hsections : sections = productionSections ++ developmentSections := rfl
  have hsection : (fun title => (members document title).map fun m => (m.1, m.2.display)) =
      declarations document := funext fun title => (declarations_eq title).symm
  have hread : (occurrences document).map (fun m => (m.1, m.2.display)) =
      productionSections.flatMap (declarations document) ++
        developmentSections.flatMap (declarations document) := by
    rw [occurrences, List.map_flatMap, hsection, hsections, List.flatMap_append]
  rw [hread, Table.insertAllNew_append]
  exact Table.insertAllNew_insertAllNew _ _

theorem firstDeclared_ofDocument (document : List (String × Value)) :
    FirstDeclared document (ofDocument document).declared := by
  have hkeys : (ofDocument document).declared.keys =
      ((occurrences document).map Prod.fst).eraseDups := by
    rw [declared_ofDocument, Table.keys_insertAllNew, List.map_map]
    rfl
  refine ⟨fun name => ?_, Table.nodup_keys _, ?_, fun name range => ?_⟩
  · rw [hkeys, List.mem_eraseDups, mem_map_occurrences_iff]
  · rw [hkeys]
    exact pairwise_idxOf_eraseDups _
  · rw [declared_ofDocument, Table.find?_insertAllNew, Table.find?_empty, Option.none_or,
      Table.lookup_map, Option.map_eq_some_iff]
    simp only [firstIn_iff, eq_comm]

theorem declared_congr
    (h : ∀ title ∈ sections, (Value.member? document' title).bind Value.object? =
      (Value.member? document title).bind Value.object?) :
    (ofDocument document').declared = (ofDocument document).declared := by
  have hcollect : ∀ titles ⊆ sections, collect document' titles = collect document titles := by
    intro titles htitles
    refine congrArg Table.empty.insertAllNew (List.flatMap_congr fun title htitle => ?_)
    rw [declarations, declarations, h title (htitles htitle)]
  simp only [ofDocument, hcollect productionSections (by decide),
    hcollect developmentSections (by decide)]

end

theorem parse_of_object {room : Nat} {text : String} {document : List (String × Value)}
    (h : Json.parse room text = .ok (.object document)) :
    parse room text = .ok (ofDocument document) := by
  rw [parse, h]

/-- What a manifest declares is told by its sections that are objects, and by nothing else of it. -/
theorem parse_firstDeclared {room : Nat} {text : String} {document : List (String × Value)}
    (h : Json.parse room text = .ok (.object document)) :
    ∃ m, parse room text = .ok m ∧ FirstDeclared document m.declared ∧
      ∀ room' text' document', Json.parse room' text' = .ok (.object document') →
        (∀ title ∈ sections, (Value.member? document' title).bind Value.object? =
          (Value.member? document title).bind Value.object?) →
        ∃ m', parse room' text' = .ok m' ∧ m'.declared = m.declared := by
  refine ⟨ofDocument document, parse_of_object h, firstDeclared_ofDocument document, ?_⟩
  intro room' text' document' h' hsections
  exact ⟨ofDocument document', parse_of_object h', declared_congr hsections⟩

/-- One of the sections is no object, and one name is in the three others. -/
def layeredDocument : List (String × Value) :=
  [("devDependencies", .object [("c", .str "3"), ("a", .str "4")]),
    ("optionalDependencies", .array [.str "d"]),
    ("dependencies", .object [("b", .str "2"), ("a", .null)]),
    ("peerDependencies", .object [("d", .int 5), ("a", .str "6")])]

def layeredText : String :=
  "\x7b\"devDependencies\":\x7b\"c\":\"3\",\"a\":\"4\"\x7d,\"optionalDependencies\":[\"d\"]," ++
    "\"dependencies\":\x7b\"b\":1,\"a\":null,\"b\":\"2\"\x7d," ++
    "\"peerDependencies\":\x7b\"d\":5,\"a\":\"6\"\x7d\x7d"

/-- The same sections that are objects, in another order and with another member. -/
def renamedDocument : List (String × Value) :=
  [("name", .str "b"), ("peerDependencies", .object [("d", .int 5), ("a", .str "6")]),
    ("dependencies", .object [("b", .str "2"), ("a", .null)]),
    ("devDependencies", .object [("c", .str "3"), ("a", .str "4")])]

def renamedText : String :=
  "\x7b\"name\":\"b\"," ++
    "\"peerDependencies\":\x7b\"d\":5,\"a\":\"6\"\x7d," ++
    "\"dependencies\":\x7b\"b\":\"2\",\"a\":null\x7d," ++
    "\"devDependencies\":\x7b\"c\":\"3\",\"a\":\"4\"\x7d\x7d"

set_option maxRecDepth 4096 in
theorem parse_firstDeclared_layered :
    Json.parse 990 layeredText = .ok (.object layeredDocument) ∧
      ∃ m m', parse 990 layeredText = .ok m ∧ FirstDeclared layeredDocument m.declared ∧
        m.declared.entries = [("b", "2"), ("a", "None"), ("c", "3"), ("d", "5")] ∧
        parse 990 renamedText = .ok m' ∧ m'.declared = m.declared := by
  have hlayered : Json.parse 990 layeredText = .ok (.object layeredDocument) := rfl
  have hrenamed : Json.parse 990 renamedText = .ok (.object renamedDocument) := rfl
  obtain ⟨m, hm, hdeclared, hother⟩ := parse_firstDeclared hlayered
  obtain ⟨m', hm', heq⟩ := hother 990 renamedText renamedDocument hrenamed (by
    simp only [sections, List.forall_mem_cons]
    exact ⟨rfl, rfl, rfl, rfl, nofun⟩)
  refine ⟨hlayered, m, m', hm, hdeclared, ?_, hm', heq⟩
  rw [parse_of_object hlayered, Except.ok.injEq] at hm
  rw [← hm]
  decide +kernel

end DependencyAudit.Manifest
