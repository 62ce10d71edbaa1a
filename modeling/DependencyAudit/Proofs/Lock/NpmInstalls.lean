import DependencyAudit.Lock.Npm
import DependencyAudit.Proofs.Json.DistinctNames
import DependencyAudit.Proofs.Json.Printing
import DependencyAudit.Proofs.TableOfList
import DependencyAudit.Proofs.Text.Pieces

/-!
# The installs of package-lock.json

Which version a document gives to each name, and in which order the names come. A name keeps the
place of its first install, whether or not another one gives the version in the end.
-/

namespace DependencyAudit.Lock.Npm

open Json Text

/-- An entry that is an object with a text as its version. -/
def HasVersion (entry : Value) (version : String) : Prop :=
  ∃ members, entry = .object members ∧ Value.member? members "version" = some (.str version)

/-- The install that stands in an entry. Its name is what follows the last root in the path. -/
structure Installed (path : String) (entry : Value) (i : Install) : Prop where
  version : HasVersion entry i.version
  name_ne_empty : i.name ≠ ""
  path_eq : ∃ front, path.toList = front ++ (installRoot ++ i.name.toList)
  last : ¬ installRoot <:+: installRoot.tail ++ i.name.toList
  depth : i.depth = occurrences installRoot path.toList

/-- An entry of the other section. -/
structure Declared (name : String) (entry : Value) (d : String × String) : Prop where
  name : d.1 = name
  version : HasVersion entry d.2

/-- The members of an object-valued section. -/
inductive Section (document : List (String × Value)) (title : String) :
    List (String × Value) → Prop
  | object {members : List (String × Value)}
    (h : Value.member? document title = some (.object members)) : Section document title members
  | absent (h : ∀ members, Value.member? document title ≠ some (.object members)) :
    Section document title []

/-- What the members stand for, in order. Those that stand for nothing are passed over. -/
inductive Selects {α : Type} (R : String → Value → α → Prop) :
    List (String × Value) → List α → Prop
  | nil : Selects R [] []
  | taken {name : String} {entry : Value} {a : α} {members : List (String × Value)} {as : List α}
    (h : R name entry a) (hmembers : Selects R members as) :
    Selects R ((name, entry) :: members) (a :: as)
  | passed {name : String} {entry : Value} {members : List (String × Value)} {as : List α}
    (h : ∀ a, ¬ R name entry a) (hmembers : Selects R members as) :
    Selects R ((name, entry) :: members) as

/-- The install of a name that counts: the first of those that are least deep. -/
inductive Shallowest : List Install → Install → Prop
  | intro {before after : List Install} {i : Install}
    (hbefore : ∀ j ∈ before, j.name = i.name → i.depth < j.depth)
    (hafter : ∀ j ∈ after, j.name = i.name → i.depth ≤ j.depth) :
    Shallowest (before ++ i :: after) i

/-- What a document comes to by its installs and by the versions declared beside them. -/
structure Resolution (installs : List Install) (declared : List (String × String))
    (versions : Table String String) : Prop where
  keys_eq : versions.keys = (installs.map Install.name ++ declared.map Prod.fst).eraseDups
  of_declared : ∀ name version, (name, version) ∈ declared → versions.find? name = some version
  of_installs : ∀ name version, name ∉ declared.map Prod.fst →
    (versions.find? name = some version ↔
      ∃ i, Shallowest installs i ∧ i.name = name ∧ i.version = version)

variable {path version : String} {entry : Value} {i j : Install} {installs : List Install}
  {installed : Table String Install}

theorem version?_eq_some_iff : version? entry = some version ↔ HasVersion entry version := by
  unfold version? HasVersion
  constructor
  · intro h
    obtain ⟨members, hmembers, h⟩ := Option.bind_eq_some_iff.1 h
    obtain ⟨v, hv, h⟩ := Option.bind_eq_some_iff.1 h
    cases entry with
    | object _ =>
      cases v with
      | str s =>
        obtain rfl : s = version := Option.some.inj h
        exact ⟨members, congrArg _ (Option.some.inj hmembers), hv⟩
      | _ => contradiction
    | _ => contradiction
  · rintro ⟨members, rfl, h⟩
    exact Option.bind_eq_some_iff.2 ⟨members, rfl, by rw [h]; rfl⟩

theorem borderless_installRoot : Borderless installRoot where
  ne_nil := by decide
  border := by
    intro u v huv hv
    have hborder : ∀ v ∈ installRoot.tails, v.isPrefixOf installRoot → v = [] ∨ v = installRoot := by
      decide
    have hsuffix : v ∈ installRoot.tails := (List.mem_tails v _).2 ⟨u, huv.symm⟩
    rcases hborder v hsuffix (List.isPrefixOf_iff_prefix.2 hv) with rfl | rfl
    · exact .inl rfl
    · exact .inr (List.append_left_eq_self.1 huv.symm)

theorem declared?_eq_some_iff {name : String} {d : String × String} :
    ((version? entry).map fun version => (name, version)) = some d ↔ Declared name entry d := by
  rw [Option.map_eq_some_iff]
  constructor
  · rintro ⟨version, hversion, rfl⟩
    exact ⟨rfl, version?_eq_some_iff.1 hversion⟩
  · rintro ⟨rfl, hversion⟩
    exact ⟨d.2, version?_eq_some_iff.2 hversion, rfl⟩

theorem install?_eq_none (h : ¬ installRoot <:+: path.toList) (entry : Value) :
    install? path entry = none := by
  unfold install?
  rw [pieces_eq_singleton h]
  rfl

/-- A path is parted at its last root. -/
theorem install?_of_last {front name : List Char}
    (hpath : path.toList = front ++ (installRoot ++ name))
    (hlast : ¬ installRoot <:+: installRoot.tail ++ name) (entry : Value) :
    install? path entry = (version? entry).bind fun version =>
      if name.isEmpty then none
      else some ⟨String.ofList name, version, occurrences installRoot path.toList⟩ := by
  have hname : ¬ installRoot <:+: name := fun hin => hlast (List.infix_append_of_infix_right hin)
  have hpieces : pieces installRoot path.toList = pieces installRoot front ++ [name] := by
    rw [hpath, borderless_installRoot.pieces_append, pieces_eq_singleton hname]
  have hdepth : (pieces installRoot front).length = occurrences installRoot path.toList := by
    have hlength := borderless_installRoot.length_pieces path.toList
    rw [hpieces, List.length_append, List.length_singleton] at hlength
    omega
  have hne : (pieces installRoot front).reverse ≠ [] := by
    rw [← List.length_pos_iff, List.length_reverse, borderless_installRoot.length_pieces]
    exact Nat.succ_pos _
  obtain ⟨outer, rest, hrest⟩ := List.exists_cons_of_ne_nil hne
  have hcount : (outer :: rest).length = occurrences installRoot path.toList := by
    rw [← hrest, List.length_reverse, hdepth]
  unfold install?
  rw [hpieces, List.reverse_append, List.reverse_singleton, List.singleton_append, hrest, ← hcount]
  cases version? entry <;> rfl

theorem install?_eq_some_iff : install? path entry = some i ↔ Installed path entry i := by
  constructor
  · intro h
    by_cases hroot : installRoot <:+: path.toList
    · obtain ⟨front, name, hpath, hlast⟩ := borderless_installRoot.exists_last hroot
      rw [install?_of_last hpath hlast] at h
      obtain ⟨version, hversion, h⟩ := Option.bind_eq_some_iff.1 h
      obtain ⟨hname, h⟩ := Option.ite_none_left_eq_some.1 h
      obtain rfl := Option.some.inj h
      refine ⟨version?_eq_some_iff.1 hversion, ?_, ⟨front, ?_⟩, ?_, rfl⟩
      · exact fun hempty => hname (List.isEmpty_iff.2 (String.ofList_eq_empty_iff.1 hempty))
      · rw [String.toList_ofList, hpath]
      · rwa [String.toList_ofList]
    · rw [install?_eq_none hroot] at h
      contradiction
  · rintro ⟨hversion, hname, ⟨front, hpath⟩, hlast, hdepth⟩
    have hne : ¬ i.name.toList.isEmpty := by
      rwa [List.isEmpty_iff, String.toList_eq_nil_iff]
    rw [install?_of_last hpath hlast, version?_eq_some_iff.2 hversion, Option.bind_some,
      if_neg hne, String.ofList_toList, ← hdepth]

theorem section_sectionOf (document : List (String × Value)) (title : String) :
    Section document title (sectionOf document title) := by
  unfold sectionOf
  cases h : Value.member? document title with
  | none => exact .absent fun members => by simp [h]
  | some v =>
    cases v with
    | object members => exact .object h
    | _ => exact .absent fun members => by simp [h]

theorem Section.nodup {document members : List (String × Value)} {title : String}
    (h : Section document title members) (hdocument : Distinct (.object document)) :
    (members.map Prod.fst).Nodup := by
  cases h with
  | object hmember => exact (hdocument.member (Table.mem_of_lookup_eq_some hmember)).nodup
  | absent => exact List.nodup_nil

theorem selects_filterMap {α : Type} {R : String → Value → α → Prop}
    {f : String × Value → Option α} (h : ∀ name entry a, f (name, entry) = some a ↔ R name entry a)
    (members : List (String × Value)) : Selects R members (members.filterMap f) := by
  induction members with
  | nil => exact .nil
  | cons m members ih =>
    obtain ⟨name, entry⟩ := m
    cases hm : f (name, entry) with
    | none =>
      rw [List.filterMap_cons_none hm]
      refine .passed (fun a ha => ?_) ih
      exact absurd ((h name entry a).2 ha) (by simp [hm])
    | some a =>
      rw [List.filterMap_cons_some hm]
      exact .taken ((h name entry a).1 hm) ih

theorem Selects.sublist {members : List (String × Value)} {declared : List (String × String)}
    (h : Selects Declared members declared) :
    (declared.map Prod.fst).Sublist (members.map Prod.fst) := by
  induction h with
  | nil => exact .slnil
  | taken h _ ih =>
    rw [List.map_cons, List.map_cons, h.name]
    exact ih.cons_cons _
  | passed _ _ ih => exact ih.cons _

theorem Shallowest.depth_le (h : Shallowest installs i) (hj : j ∈ installs)
    (hname : j.name = i.name) : i.depth ≤ j.depth := by
  obtain ⟨hbefore, hafter⟩ := h
  rcases List.mem_append.1 hj with hj | hj
  · exact (hbefore j hj hname).le
  · rcases List.mem_cons.1 hj with rfl | hj
    · exact le_rfl
    · exact hafter j hj hname

theorem Shallowest.mem (h : Shallowest installs i) : i ∈ installs := by
  obtain ⟨-, -⟩ := h
  exact List.mem_append_right _ List.mem_cons_self

theorem shallowest_concat_iff : Shallowest (installs ++ [j]) i ↔
    (Shallowest installs i ∧ (j.name = i.name → i.depth ≤ j.depth)) ∨
      (i = j ∧ ∀ k ∈ installs, k.name = j.name → j.depth < k.depth) := by
  constructor
  · -- The last install is the one that counts, or it stands behind the one that does.
    generalize hall : installs ++ [j] = all
    rintro ⟨hbefore, hafter⟩
    rename_i before after
    rcases List.eq_nil_or_concat after with rfl | ⟨after, k, rfl⟩
    · obtain ⟨rfl, hj⟩ := List.append_inj' hall rfl
      obtain rfl := List.singleton_inj.1 hj
      exact .inr ⟨rfl, hbefore⟩
    · rw [List.concat_eq_append, ← List.cons_append, ← List.append_assoc] at hall
      obtain ⟨rfl, hj⟩ := List.append_inj' hall rfl
      obtain rfl := List.singleton_inj.1 hj
      rw [List.concat_eq_append, List.forall_mem_append, List.forall_mem_singleton] at hafter
      exact .inl ⟨.intro hbefore hafter.1, hafter.2⟩
  · rintro (⟨⟨hbefore, hafter⟩, hj⟩ | ⟨rfl, hbefore⟩)
    · rw [List.append_assoc, List.cons_append]
      refine .intro hbefore ?_
      rw [List.forall_mem_append, List.forall_mem_singleton]
      exact ⟨hafter, hj⟩
    · exact .intro hbefore fun _ hk => absurd hk List.not_mem_nil

/-- A later install changes nothing if one at most as deep came before it. -/
theorem shallowest_concat_of_exists
    (h : ∃ k ∈ installs, k.name = j.name ∧ k.depth ≤ j.depth) (i : Install) :
    Shallowest (installs ++ [j]) i ↔ Shallowest installs i := by
  obtain ⟨k, hk, hname, hdepth⟩ := h
  rw [shallowest_concat_iff]
  constructor
  · rintro (hi | ⟨-, hj⟩)
    · exact hi.1
    · exact absurd hdepth (Nat.not_le.2 (hj k hk hname))
  · intro hi
    exact .inl ⟨hi, fun hij => (hi.depth_le hk (hname.trans hij)).trans hdepth⟩

theorem shallowest_concat_of_forall
    (h : ∀ k ∈ installs, k.name = j.name → j.depth < k.depth) (i : Install) :
    Shallowest (installs ++ [j]) i ↔ i = j ∨ (i.name ≠ j.name ∧ Shallowest installs i) := by
  rw [shallowest_concat_iff]
  constructor
  · rintro (⟨hi, hdepth⟩ | ⟨rfl, -⟩)
    · refine .inr ⟨fun hname => ?_, hi⟩
      exact absurd (hdepth hname.symm) (Nat.not_le.2 (h i hi.mem hname))
    · exact .inl rfl
  · rintro (rfl | ⟨hname, hi⟩)
    · exact .inr ⟨rfl, h⟩
    · exact .inl ⟨hi, fun hij => absurd hij.symm hname⟩

/-- The installs that are known, each name in the place where it first came. -/
structure Settled (installs : List Install) (installed : Table String Install) : Prop where
  keys_eq : installed.keys = (installs.map Install.name).eraseDups
  find?_iff : ∀ name i, installed.find? name = some i ↔ i.name = name ∧ Shallowest installs i

namespace Settled

theorem exists_known (h : Settled installs installed) (hj : j ∈ installs) :
    ∃ known, installed.find? j.name = some known ∧ known.depth ≤ j.depth := by
  have hkey : j.name ∈ installed.keys := by
    rw [h.keys_eq, List.mem_eraseDups]
    exact List.mem_map_of_mem hj
  obtain ⟨known, hknown⟩ := (Table.mem_keys_iff _ _).1 hkey
  obtain ⟨hname, hshallow⟩ := (h.find?_iff _ _).1 hknown
  exact ⟨known, hknown, hshallow.depth_le hj hname.symm⟩

theorem settle_of_exists (h : Settled installs installed)
    (hj : ∃ k ∈ installs, k.name = j.name ∧ k.depth ≤ j.depth) : settle installed j = installed := by
  obtain ⟨k, hk, hname, hdepth⟩ := hj
  obtain ⟨known, hknown, hle⟩ := h.exists_known hk
  rw [hname] at hknown
  unfold settle
  rw [hknown]
  exact if_pos (hle.trans hdepth)

theorem settle_of_forall (h : Settled installs installed)
    (hj : ∀ k ∈ installs, k.name = j.name → j.depth < k.depth) :
    settle installed j = installed.insert j.name j := by
  unfold settle
  split
  · rename_i known hknown
    obtain ⟨hname, hshallow⟩ := (h.find?_iff _ _).1 hknown
    exact if_neg (Nat.not_le.2 (hj known hshallow.mem hname))
  · rfl

theorem concat (h : Settled installs installed) (j : Install) :
    Settled (installs ++ [j]) (settle installed j) := by
  have hkeys : (if j.name ∈ installed.keys then installed.keys else installed.keys ++ [j.name]) =
      ((installs ++ [j]).map Install.name).eraseDups := by
    rw [h.keys_eq, List.map_append, List.map_singleton, eraseDups_concat]
    simp only [List.mem_eraseDups]
  -- Whether an install as shallow came before decides if the table changes; its keys change only
  -- for a new name.
  by_cases hj : ∃ k ∈ installs, k.name = j.name ∧ k.depth ≤ j.depth
  · have hkey : j.name ∈ installed.keys := by
      obtain ⟨k, hk, hname, -⟩ := hj
      obtain ⟨known, hknown, -⟩ := h.exists_known hk
      exact hname ▸ (Table.mem_keys_iff _ _).2 ⟨known, hknown⟩
    rw [h.settle_of_exists hj]
    refine ⟨(if_pos hkey).symm.trans hkeys, fun name i => ?_⟩
    rw [shallowest_concat_of_exists hj]
    exact h.find?_iff name i
  · have hfirst : ∀ k ∈ installs, k.name = j.name → j.depth < k.depth :=
      fun k hk hname => Nat.not_le.1 fun hdepth => hj ⟨k, hk, hname, hdepth⟩
    rw [h.settle_of_forall hfirst]
    refine ⟨(Table.keys_insert _ _ _).trans hkeys, fun name i => ?_⟩
    rw [Table.find?_insert, shallowest_concat_of_forall hfirst]
    split
    · rename_i hname
      rw [Option.some.injEq]
      constructor
      · rintro rfl
        exact ⟨hname.symm, .inl rfl⟩
      · rintro ⟨hi, rfl | ⟨hne, -⟩⟩
        · rfl
        · exact absurd (hi.trans hname) hne
    · rename_i hname
      rw [h.find?_iff]
      refine and_congr_right fun hi => ?_
      have hne : i.name ≠ j.name := fun hij => hname (hi.symm.trans hij)
      constructor
      · exact fun hshallow => .inr ⟨hne, hshallow⟩
      · rintro (rfl | hshallow)
        · contradiction
        · exact hshallow.2

end Settled

theorem settled_foldl (installs : List Install) :
    Settled installs (installs.foldl settle Table.empty) := by
  induction installs using List.reverseRecOn with
  | nil =>
    refine ⟨rfl, fun name i => ⟨nofun, fun h => ?_⟩⟩
    exact absurd h.2.mem List.not_mem_nil
  | append_singleton installs j ih =>
    rw [List.foldl_append]
    exact ih.concat j

theorem resolution_insertAll (installs : List Install) {declared : List (String × String)}
    (hdeclared : (declared.map Prod.fst).Nodup) : Resolution installs declared
      (((installs.foldl settle Table.empty).mapValues Install.version).insertAll declared) := by
  have hsettled := settled_foldl installs
  have hfind : ∀ name, (((installs.foldl settle Table.empty).mapValues Install.version).insertAll
      declared).find? name = (declared.lookup name).or
        (((installs.foldl settle Table.empty).find? name).map Install.version) := by
    intro name
    rw [Table.find?_insertAll, Table.lookup_reverse hdeclared, Table.find?_mapValues]
  refine ⟨?_, fun name version hmem => ?_, fun name version hnot => ?_⟩
  · rw [Table.keys_insertAll, Table.keys_mapValues, hsettled.keys_eq, eraseDups_eraseDups_append]
  · rw [hfind, (Table.lookup_eq_some_iff hdeclared name version).2 hmem, Option.some_or]
  · rw [hfind, (Table.lookup_eq_none_iff declared name).2 hnot, Option.none_or,
      Option.map_eq_some_iff]
    simp only [hsettled.find?_iff, and_assoc, and_left_comm]

/-- Which versions come of a document, in which order. -/
theorem read_object {room : Nat} {text : String} {document : List (String × Value)}
    (h : Json.parse room text = .ok (.object document)) :
    ∃ packages dependencies installs declared versions,
      Section document "packages" packages ∧ Section document "dependencies" dependencies ∧
        Selects Installed packages installs ∧ Selects Declared dependencies declared ∧
        read room text = .ok versions ∧ Resolution installs declared versions := by
  have hread : read room text = .ok (ofDocument document) := by
    rw [read, h]
  have hsection := section_sectionOf document "dependencies"
  have hinstalls : Selects Installed (sectionOf document "packages")
      ((sectionOf document "packages").filterMap fun e => install? e.1 e.2) :=
    selects_filterMap (fun path entry i => install?_eq_some_iff) _
  have hdeclared : Selects Declared (sectionOf document "dependencies")
      ((sectionOf document "dependencies").filterMap fun e =>
        (version? e.2).map fun version => (e.1, version)) :=
    selects_filterMap (fun name entry d => declared?_eq_some_iff) _
  have hnodup := hdeclared.sublist.nodup (hsection.nodup (distinct_of_parse h))
  exact ⟨_, _, _, _, _, section_sectionOf document "packages", hsection, hinstalls, hdeclared, hread,
    resolution_insertAll _ hnodup⟩

def versioned (version : String) : Value := .object [("version", .str version)]

def samplePackages : List (String × Value) :=
  [("", versioned "9.0.0"),
    ("node_modules/a/node_modules/@s/b", versioned "1.0.0"),
    ("node_modules/c", .object [("resolved", .str "file:c")]),
    ("node_modules/a", versioned "1.1.0"),
    ("apps/web/node_modules/@s/b", versioned "2.0.0"),
    ("node_modules/@s/b", versioned "3.0.0")]

def sampleDocument : List (String × Value) :=
  [("packages", .object samplePackages),
    ("dependencies", .object [("d", versioned "5.0.0"), ("a", versioned "4.0.0"), ("c", .str "*")])]

def sampleText : String := (Value.object sampleDocument).pretty

example : (ofDocument sampleDocument).entries =
    [("@s/b", "2.0.0"), ("a", "4.0.0"), ("d", "5.0.0")] := by decide

theorem nested_versioned (version : String) : Nested 1 (versioned version) :=
  .object (List.nodup_singleton _) (List.forall_mem_singleton.2 (.str 0 version))

theorem parse_sampleText : Json.parse 990 sampleText = .ok (.object sampleDocument) := by
  have hresolved : Nested 1 (.object [("resolved", .str "file:c")]) :=
    .object (List.nodup_singleton _) (List.forall_mem_singleton.2 (.str 0 _))
  have hpackages : Nested 2 (.object samplePackages) := by
    refine .object (by decide) ?_
    simp only [samplePackages, List.forall_mem_cons]
    exact ⟨nested_versioned _, nested_versioned _, hresolved, nested_versioned _,
      nested_versioned _, nested_versioned _, nofun⟩
  have hdocument : Nested 3 (.object sampleDocument) := by
    refine .object (by decide) ?_
    simp only [sampleDocument, List.forall_mem_cons]
    refine ⟨hpackages, .object (by decide) ?_, nofun⟩
    simp only [List.forall_mem_cons]
    exact ⟨nested_versioned _, nested_versioned _, .str 1 _, nofun⟩
  exact parse_pretty hdocument (by decide)

theorem read_sampleText :
    Json.parse 990 sampleText = .ok (.object sampleDocument) ∧
      ∃ packages dependencies installs declared versions,
        Section sampleDocument "packages" packages ∧
          Section sampleDocument "dependencies" dependencies ∧
          Selects Installed packages installs ∧ Selects Declared dependencies declared ∧
          read 990 sampleText = .ok versions ∧ Resolution installs declared versions :=
  ⟨parse_sampleText, read_object parse_sampleText⟩

end DependencyAudit.Lock.Npm
