import DependencyAudit.Proofs.Lock.NpmInstalls
import DependencyAudit.Proofs.Text.Segments

/-!
# Roots that are part of a longer segment

A root is meant to be a segment of an install path. It is looked for as a text, so every segment
with more behind it is taken for a root that ends in one. The two readings of a path agree on an
install just in case all roots are whole segments; where a longer segment is taken for a root, an
install beside it can lose its place to one that is none.
-/

namespace DependencyAudit.Lock.Npm

open Json Text

def rootName : List Char := "node_modules".toList

def segments (path : String) : List (List Char) := path.toList.splitOn '/'

/-- The install of an entry if the segments named like a root are the roots of its path. -/
structure WholeInstall (path : String) (entry : Value) (i : Install) : Prop where
  version : HasVersion entry i.version
  name_ne_empty : i.name ≠ ""
  segments_eq : ∃ outer, segments path = outer ++ rootName :: segments i.name
  last : rootName ∉ segments i.name
  depth : i.depth = (segments path).count rootName

/-- The install of an entry if all segments but the last that end like a root are the roots of its
path. -/
structure EndingInstall (path : String) (entry : Value) (i : Install) : Prop where
  version : HasVersion entry i.version
  name_ne_empty : i.name ≠ ""
  segments_eq : ∃ outer root, segments path = outer ++ root :: segments i.name ∧ rootName <:+ root
  last : ∀ s ∈ (segments i.name).dropLast, ¬ rootName <:+ s
  depth : i.depth = (segments path).dropLast.countP rootName.isSuffixOf

/-- No segment is taken for a root by its end only, and none that is named like a root is passed
over because the path ends with it. -/
structure WholeRoots (path : String) : Prop where
  eq_of_suffix : ∀ s ∈ (segments path).dropLast, rootName <:+ s → s = rootName
  last_ne : rootName ∈ (segments path).dropLast → (segments path).getLast? ≠ some rootName

variable {path : String} {entry : Value} {i : Install}

theorem slash_not_mem_rootName : '/' ∉ rootName := by decide

theorem segments_ne_nil (path : String) : segments path ≠ [] := List.splitOn_ne_nil '/' _

/-- The text behind the last occurrence of a root is what follows the last segment with its end. -/
theorem installed_iff_endingInstall : Installed path entry i ↔ EndingInstall path entry i := by
  have hfront : (∃ front, path.toList = front ++ (installRoot ++ i.name.toList)) ↔
      ∃ outer root, segments path = outer ++ root :: segments i.name ∧ rootName <:+ root :=
    exists_eq_append_iff slash_not_mem_rootName
  have hlast : ¬ installRoot <:+: installRoot.tail ++ i.name.toList ↔
      ∀ s ∈ (segments i.name).dropLast, ¬ rootName <:+ s := by
    have hname : installRoot <:+: i.name.toList ↔
        ∃ s ∈ (segments i.name).dropLast, rootName <:+ s :=
      infix_iff_exists_segment slash_not_mem_rootName i.name.toList
    have hsame : ¬ installRoot <:+: installRoot.tail ++ i.name.toList ↔
        ¬ installRoot <:+: i.name.toList := by
      constructor
      · exact fun h hin => h (List.infix_append_of_infix_right hin)
      · exact borderless_installRoot.not_infix_tail_append
    rw [hsame, hname]
    simp only [not_exists, not_and]
  have hdepth : occurrences installRoot path.toList =
      (segments path).dropLast.countP rootName.isSuffixOf :=
    occurrences_eq_countP slash_not_mem_rootName path.toList
  constructor
  · intro h
    exact ⟨h.version, h.name_ne_empty, hfront.1 h.path_eq, hlast.1 h.last, h.depth.trans hdepth⟩
  · intro h
    exact ⟨h.version, h.name_ne_empty, hfront.2 h.segments_eq, hlast.2 h.last,
      h.depth.trans hdepth.symm⟩

theorem forall_of_countP_eq {α : Type} {p q : α → Bool} (hqp : ∀ a, q a → p a) {as : List α}
    (h : as.countP p = as.countP q) : ∀ a ∈ as, p a → q a := by
  induction as with
  | nil => exact fun _ ha => absurd ha List.not_mem_nil
  | cons a as ih =>
    have hle : as.countP q ≤ as.countP p := List.countP_mono_left fun b _ => hqp b
    rw [List.countP_cons, List.countP_cons] at h
    rw [List.forall_mem_cons]
    by_cases hq : q a
    · rw [if_pos hq, if_pos (hqp a hq)] at h
      exact ⟨fun _ => hq, ih (by omega)⟩
    · rw [if_neg hq] at h
      by_cases hp : p a
      · rw [if_pos hp] at h
        omega
      · rw [if_neg hp] at h
        exact ⟨fun hpa => absurd hpa hp, ih (by omega)⟩

theorem count_rootName_of_getLast? (h : (segments path).getLast? ≠ some rootName) :
    (segments path).count rootName = (segments path).dropLast.count rootName := by
  have hlast := List.getLast?_eq_some_getLast (segments_ne_nil path)
  rw [hlast] at h
  have hne : ¬ (segments path).getLast (segments_ne_nil path) = rootName := fun he => h (he ▸ rfl)
  calc (segments path).count rootName
      = ((segments path).dropLast ++ [(segments path).getLast (segments_ne_nil path)]).count
          rootName := by rw [List.dropLast_concat_getLast]
    _ = (segments path).dropLast.count rootName := by
      rw [List.count_append, List.count_singleton, if_neg (mt beq_iff_eq.1 hne), Nat.add_zero]

theorem getLast?_segments {outer : List (List Char)} {root : List Char} {name : String}
    (h : segments path = outer ++ root :: segments name) :
    (segments path).getLast? = (segments name).getLast? := by
  have hne := segments_ne_nil name
  rw [h, List.getLast?_append_of_ne_nil _ (List.cons_ne_nil _ _), List.getLast?_cons_of_ne_nil hne]

theorem dropLast_segments {outer : List (List Char)} {root : List Char} {name : String}
    (h : segments path = outer ++ root :: segments name) :
    (segments path).dropLast = outer ++ root :: (segments name).dropLast := by
  rw [h, List.dropLast_append_of_ne_nil (List.cons_ne_nil _ _),
    List.dropLast_cons_of_ne_nil (segments_ne_nil name)]

/-- Counting roots by their ends finds no more than there are. -/
theorem WholeRoots.countP_eq (h : WholeRoots path) :
    (segments path).dropLast.countP rootName.isSuffixOf =
      (segments path).dropLast.count rootName := by
  rw [List.count_eq_countP]
  apply List.countP_congr
  intro s hs
  rw [List.isSuffixOf_iff_suffix, beq_iff_eq]
  constructor
  · exact h.eq_of_suffix s hs
  · intro hname
    exact hname ▸ List.suffix_refl s

namespace WholeInstall

theorem getLast?_ne (h : WholeInstall path entry i) :
    (segments path).getLast? ≠ some rootName := by
  obtain ⟨outer, houter⟩ := h.segments_eq
  rw [getLast?_segments houter]
  exact fun hlast => h.last (List.mem_of_getLast? hlast)

/-- Both readings find as many roots, so they find the same. -/
theorem wholeRoots (h : WholeInstall path entry i) (hending : EndingInstall path entry i) :
    WholeRoots path := by
  have hcount : (segments path).dropLast.countP rootName.isSuffixOf =
      (segments path).dropLast.countP (· == rootName) := by
    rw [← List.count_eq_countP, ← count_rootName_of_getLast? h.getLast?_ne, ← h.depth,
      hending.depth]
  refine ⟨fun s hs hsuffix => ?_, fun _ => h.getLast?_ne⟩
  have hname := forall_of_countP_eq (fun t ht => ?_) hcount s hs
    (List.isSuffixOf_iff_suffix.2 hsuffix)
  · exact beq_iff_eq.1 hname
  · rw [beq_iff_eq.1 ht]
    exact List.isSuffixOf_iff_suffix.2 (List.suffix_refl rootName)

theorem ending (h : WholeInstall path entry i) (hroots : WholeRoots path) :
    EndingInstall path entry i := by
  obtain ⟨outer, houter⟩ := h.segments_eq
  refine ⟨h.version, h.name_ne_empty, ⟨outer, rootName, houter, List.suffix_refl _⟩, ?_, ?_⟩
  · intro s hs hsuffix
    have hmem : s ∈ (segments path).dropLast := by
      rw [dropLast_segments houter]
      exact List.mem_append_right _ (List.mem_cons_of_mem _ hs)
    have hname := hroots.eq_of_suffix s hmem hsuffix
    exact h.last (hname ▸ List.mem_of_mem_dropLast hs)
  · rw [h.depth, count_rootName_of_getLast? h.getLast?_ne, hroots.countP_eq]

end WholeInstall

theorem EndingInstall.whole (h : EndingInstall path entry i) (hroots : WholeRoots path) :
    WholeInstall path entry i := by
  obtain ⟨outer, root, houter, hsuffix⟩ := h.segments_eq
  have hdrop := dropLast_segments houter
  have hroot : root ∈ (segments path).dropLast := by
    rw [hdrop]
    exact List.mem_append_right _ List.mem_cons_self
  obtain rfl := hroots.eq_of_suffix root hroot hsuffix
  have hpathLast := hroots.last_ne hroot
  refine ⟨h.version, h.name_ne_empty, ⟨outer, houter⟩, ?_, ?_⟩
  · -- A root in the name is not its last segment, so it ends like one before the last.
    intro hmem
    rw [getLast?_segments houter, List.getLast?_eq_some_getLast (segments_ne_nil _)] at hpathLast
    rw [← List.dropLast_concat_getLast (segments_ne_nil i.name), List.mem_append,
      List.mem_singleton] at hmem
    cases hmem with
    | inl hmem => exact h.last _ hmem (List.suffix_refl _)
    | inr hmem => exact hpathLast (congrArg some hmem.symm)
  · rw [h.depth, hroots.countP_eq, count_rootName_of_getLast? hpathLast]

/-- A name without roots of its own has an install by the ends of segments if it has one by whole
segments, though maybe at another depth. -/
theorem WholeInstall.exists_ending (h : WholeInstall path entry i)
    (hlast : ∀ s ∈ (segments i.name).dropLast, ¬ rootName <:+ s) :
    ∃ j, EndingInstall path entry j := by
  obtain ⟨outer, houter⟩ := h.segments_eq
  exact ⟨⟨i.name, i.version, (segments path).dropLast.countP rootName.isSuffixOf⟩, h.version,
    h.name_ne_empty, ⟨outer, rootName, houter, List.suffix_refl _⟩, hlast, rfl⟩

section

variable {α : Type} {R S : String → Value → α → Prop} {members : List (String × Value)}
  {as bs : List α}

theorem Selects.imp (h : Selects R members as)
    (hiff : ∀ name entry, (name, entry) ∈ members → ∀ a, R name entry a ↔ S name entry a) :
    Selects S members as := by
  induction h with
  | nil => exact .nil
  | taken h _ ih =>
    refine .taken ((hiff _ _ List.mem_cons_self _).1 h) (ih ?_)
    exact fun name entry hm => hiff name entry (List.mem_cons_of_mem _ hm)
  | passed h _ ih =>
    refine .passed (fun a ha => h a ((hiff _ _ List.mem_cons_self a).2 ha)) (ih ?_)
    exact fun name entry hm => hiff name entry (List.mem_cons_of_mem _ hm)

theorem Selects.exists_member (h : Selects R members as) :
    ∀ a ∈ as, ∃ name entry, (name, entry) ∈ members ∧ R name entry a := by
  induction h with
  | nil => exact fun _ ha => absurd ha List.not_mem_nil
  | taken h _ ih =>
    rw [List.forall_mem_cons]
    refine ⟨⟨_, _, List.mem_cons_self, h⟩, fun a ha => ?_⟩
    obtain ⟨name, entry, hm, hR⟩ := ih a ha
    exact ⟨name, entry, List.mem_cons_of_mem _ hm, hR⟩
  | passed _ _ ih =>
    intro a ha
    obtain ⟨name, entry, hm, hR⟩ := ih a ha
    exact ⟨name, entry, List.mem_cons_of_mem _ hm, hR⟩

theorem Selects.exists_selected (h : Selects R members as) {name : String} {entry : Value}
    (hm : (name, entry) ∈ members) {a : α} (ha : R name entry a) :
    ∃ b ∈ as, R name entry b := by
  induction h with
  | nil => exact absurd hm List.not_mem_nil
  | @taken name' entry' b _ as h _ ih =>
    cases List.mem_cons.1 hm with
    | inl hm =>
      obtain ⟨rfl, rfl⟩ := Prod.mk.inj hm
      exact ⟨b, List.mem_cons_self, h⟩
    | inr hm =>
      obtain ⟨b', hb', hR⟩ := ih hm
      exact ⟨b', List.mem_cons_of_mem b hb', hR⟩
  | passed h _ ih =>
    cases List.mem_cons.1 hm with
    | inl hm =>
      obtain ⟨rfl, rfl⟩ := Prod.mk.inj hm
      exact absurd ha (h a)
    | inr hm => exact ih hm

/-- A relation that takes no other members selects no more than the first. -/
theorem Selects.length_le (hR : Selects R members as) (hS : Selects S members bs)
    (h : ∀ name entry, (name, entry) ∈ members → ∀ b, S name entry b → ∃ a, R name entry a) :
    bs.length ≤ as.length := by
  induction hR generalizing bs with
  | nil =>
    cases hS
    exact Nat.le_refl 0
  | taken _ _ ih =>
    have hlater := fun name entry hm => h name entry (List.mem_cons_of_mem _ hm)
    cases hS with
    | taken _ hS => exact Nat.succ_le_succ (ih hS hlater)
    | passed _ hS => exact Nat.le_succ_of_le (ih hS hlater)
  | passed hnone _ ih =>
    have hlater := fun name entry hm => h name entry (List.mem_cons_of_mem _ hm)
    cases hS with
    | taken hb _ =>
      obtain ⟨a, ha⟩ := h _ _ List.mem_cons_self _ hb
      exact absurd ha (hnone a)
    | passed _ hS => exact ih hS hlater

/-- If it selects the same, it does so from the same members. -/
theorem Selects.exists_both (hR : Selects R members as) (hS : Selects S members as)
    (h : ∀ name entry, (name, entry) ∈ members → ∀ b, S name entry b → ∃ a, R name entry a) :
    ∀ name entry, (name, entry) ∈ members → ∀ a, R name entry a →
      ∃ b, R name entry b ∧ S name entry b := by
  induction hR with
  | nil => exact fun _ _ hm => absurd hm List.not_mem_nil
  | taken ha hR ih =>
    have hlater := fun name entry hm => h name entry (List.mem_cons_of_mem _ hm)
    cases hS with
    | taken hb hS =>
      intro name entry hm a' ha'
      cases List.mem_cons.1 hm with
      | inl hm =>
        obtain ⟨rfl, rfl⟩ := Prod.mk.inj hm
        exact ⟨_, ha, hb⟩
      | inr hm => exact ih hS hlater name entry hm a' ha'
    | passed _ hS =>
      have hlength := hR.length_le hS hlater
      rw [List.length_cons] at hlength
      omega
  | passed hnone _ ih =>
    have hlater := fun name entry hm => h name entry (List.mem_cons_of_mem _ hm)
    cases hS with
    | taken hb _ =>
      obtain ⟨a, ha⟩ := h _ _ List.mem_cons_self _ hb
      exact absurd ha (hnone a)
    | passed _ hS =>
      intro name entry hm a ha
      cases List.mem_cons.1 hm with
      | inl hm =>
        obtain ⟨rfl, rfl⟩ := Prod.mk.inj hm
        exact absurd ha (hnone a)
      | inr hm => exact ih hS hlater name entry hm a ha

end

/-- The installs of a document are those of its whole segments just in case every path that has an
install either way has whole roots. -/
theorem selects_wholeInstall_iff {packages : List (String × Value)} {installs : List Install}
    (h : Selects EndingInstall packages installs) : Selects WholeInstall packages installs ↔
      ∀ path entry, (path, entry) ∈ packages →
        ∀ i, EndingInstall path entry i ∨ WholeInstall path entry i → WholeRoots path := by
  constructor
  · intro hwhole
    have hends : ∀ path entry, (path, entry) ∈ packages → ∀ i, WholeInstall path entry i →
        ∃ j, EndingInstall path entry j := by
      intro path entry hm i hi
      obtain ⟨j, hj, hpath⟩ := hwhole.exists_selected hm hi
      obtain ⟨_, _, -, hending⟩ := h.exists_member j hj
      exact hpath.exists_ending hending.last
    intro path entry hm i hi
    have hending : ∃ j, EndingInstall path entry j := by
      cases hi with
      | inl hi => exact ⟨i, hi⟩
      | inr hi => exact hends path entry hm i hi
    obtain ⟨j, hj⟩ := hending
    obtain ⟨k, hending, hwhole⟩ := h.exists_both hwhole hends path entry hm j hj
    exact hwhole.wholeRoots hending
  · intro hroots
    apply h.imp
    intro path entry hm i
    constructor
    · exact fun hi => hi.whole (hroots path entry hm i (.inl hi))
    · exact fun hi => hi.ending (hroots path entry hm i (.inr hi))

/-- What a document comes to when the roots of its paths are found by the ends of their segments,
and for which documents whole segments would come to the same. -/
theorem read_wholeSegments {room : Nat} {text : String} {document : List (String × Value)}
    (h : Json.parse room text = .ok (.object document)) :
    ∃ packages dependencies installs declared versions,
      Section document "packages" packages ∧ Section document "dependencies" dependencies ∧
        Selects EndingInstall packages installs ∧ Selects Declared dependencies declared ∧
        read room text = .ok versions ∧ Resolution installs declared versions ∧
        (∀ path entry i, EndingInstall path entry i →
          (WholeInstall path entry i ↔ WholeRoots path)) ∧
        (∀ path entry i, WholeInstall path entry i →
          (EndingInstall path entry i ↔ WholeRoots path)) ∧
        (Selects WholeInstall packages installs ↔ ∀ path entry, (path, entry) ∈ packages →
          ∀ i, EndingInstall path entry i ∨ WholeInstall path entry i → WholeRoots path) := by
  have hread : read room text = .ok (ofDocument document) := by
    rw [read, h]
  have hsection := section_sectionOf document "dependencies"
  have hinstalls : Selects EndingInstall (sectionOf document "packages")
      ((sectionOf document "packages").filterMap fun e => install? e.1 e.2) :=
    selects_filterMap
      (fun path entry i => install?_eq_some_iff.trans installed_iff_endingInstall) _
  have hdeclared : Selects Declared (sectionOf document "dependencies")
      ((sectionOf document "dependencies").filterMap fun e =>
        (version? e.2).map fun version => (e.1, version)) :=
    selects_filterMap (fun name entry d => declared?_eq_some_iff) _
  have hnodup := hdeclared.sublist.nodup (hsection.nodup (distinct_of_parse h))
  refine ⟨_, _, _, _, _, section_sectionOf document "packages", hsection, hinstalls, hdeclared,
    hread, resolution_insertAll _ hnodup, ?_, ?_, selects_wholeInstall_iff hinstalls⟩
  · exact fun path entry i hending =>
      ⟨fun hwhole => hwhole.wholeRoots hending, fun hroots => hending.whole hroots⟩
  · exact fun path entry i hwhole =>
      ⟨fun hending => hwhole.wholeRoots hending, fun hroots => hwhole.ending hroots⟩

def strayPackages : List (String × Value) :=
  [("node_modules/a/node_modules/x", versioned "1.0.0"), ("old_node_modules/x", versioned "2.0.0")]

def strayDocument : List (String × Value) := [("packages", .object strayPackages)]

def strayText : String :=
  "\x7b\"packages\":\x7b\"node_modules/a/node_modules/x\":\x7b\"version\":\"1.0.0\"\x7d," ++
    "\"old_node_modules/x\":\x7b\"version\":\"2.0.0\"\x7d\x7d\x7d"

theorem parse_strayText : Json.parse 990 strayText = .ok (.object strayDocument) := by
  rfl

theorem not_wholeRoots_stray : ¬ WholeRoots "old_node_modules/x" := by
  intro h
  have hname := h.eq_of_suffix "old_node_modules".toList (by decide) (by decide)
  exact absurd hname (by decide)

theorem endingInstall_stray :
    EndingInstall "old_node_modules/x" (versioned "2.0.0") ⟨"x", "2.0.0", 1⟩ :=
  ⟨⟨_, rfl, rfl⟩, by decide, ⟨[], "old_node_modules".toList, by decide, by decide⟩, by decide,
    by decide⟩

theorem read_wholeSegments_stray :
    Json.parse 990 strayText = .ok (.object strayDocument) ∧
      ∃ packages installs declared versions, Section strayDocument "packages" packages ∧
        Selects EndingInstall packages installs ∧ read 990 strayText = .ok versions ∧
        Resolution installs declared versions ∧ ¬ Selects WholeInstall packages installs := by
  refine ⟨parse_strayText, ?_⟩
  obtain ⟨packages, _, installs, declared, versions, hpackages, -, hinstalls, -, hread, hversions,
    -, -, hwhole⟩ := read_wholeSegments parse_strayText
  refine ⟨packages, installs, declared, versions, hpackages, hinstalls, hread, hversions, ?_⟩
  intro hselects
  cases hpackages with
  | object h =>
    obtain rfl : strayPackages = _ := Value.object.inj (Option.some.inj h)
    have hroots := hwhole.1 hselects "old_node_modules/x" (versioned "2.0.0")
      (List.mem_cons_of_mem _ List.mem_cons_self)
    exact not_wholeRoots_stray (hroots _ (.inl endingInstall_stray))
  | absent h => exact h strayPackages rfl

/-- Whole segments know of one install only, and the version of another one comes of the text. -/
theorem longerSegment_prevails :
    Json.parse 990 strayText = .ok (.object strayDocument) ∧
      Section strayDocument "packages" strayPackages ∧
      Selects WholeInstall strayPackages [⟨"x", "1.0.0", 2⟩] ∧
      ∃ versions, read 990 strayText = .ok versions ∧ versions.entries = [("x", "2.0.0")] := by
  refine ⟨parse_strayText, .object rfl, .taken ?_ (.passed ?_ .nil), ofDocument strayDocument, ?_,
    ?_⟩
  · exact ⟨⟨_, rfl, rfl⟩, by decide, ⟨[rootName, ['a']], by decide⟩, by decide, by decide⟩
  · intro i hi
    obtain ⟨outer, houter⟩ := hi.segments_eq
    have hmem : rootName ∈ segments "old_node_modules/x" := by
      rw [houter]
      exact List.mem_append_right _ List.mem_cons_self
    exact absurd hmem (by decide)
  · rw [read, parse_strayText]
  · decide

end DependencyAudit.Lock.Npm
