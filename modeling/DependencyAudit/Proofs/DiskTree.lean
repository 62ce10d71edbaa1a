import Mathlib.Data.List.Induction
import Mathlib.Data.List.Infix
import DependencyAudit.Disk
import DependencyAudit.Proofs.Success

/-!
# What stands on a disk

The parts of a location name the folders on the way to it, one below the other. On a disk all of
them are there and keep to the limits, so the path with these parts leads to what stands there, and
it can always be tested whether that is a file.
-/

namespace DependencyAudit.Disk

variable {d : Disk} {place : Location} {name : String}

theorem isFile_iff (d : Disk) (place : Location) : d.isFile place ↔ place ∈ d.files.keys :=
  Table.contains_iff d.files place

theorem isFolder_iff (d : Disk) (place : Location) : d.isFolder place ↔ place ∈ d.folders :=
  List.contains_iff_mem

theorem stands_concat_iff {folders : List Location} :
    stands folders (place ++ [name]) ↔ place ∈ folders ∧ isName name := by
  unfold stands
  rw [List.dropLast_concat, List.getLast?_concat, Option.any_some, Bool.and_eq_true,
    List.contains_iff_mem]

theorem exists_concat_of_stands {folders : List Location} (h : stands folders place) :
    ∃ folder name, place = folder ++ [name] ∧ folder ∈ folders ∧ isName name := by
  obtain rfl | ⟨folder, name, rfl⟩ := List.eq_nil_or_concat' place
  · rw [stands, List.getLast?_nil, Option.any_none, Bool.and_false] at h
    exact nomatch h
  · exact ⟨folder, name, rfl, stands_concat_iff.1 h⟩

/-- What a proper name is. -/
theorem isName_iff : isName name ↔ (name ≠ "" ∧ name ≠ "." ∧ name ≠ "..") ∧
    name.utf8ByteSize ≤ nameLimit ∧ '/' ∉ name.toList ∧ '\x00' ∉ name.toList := by
  unfold isName
  simp only [Bool.and_eq_true, Bool.not_eq_true', decide_eq_true_eq, List.all_eq_true,
    List.contains_eq_mem, decide_eq_false_iff_not, List.mem_cons, not_or, List.not_mem_nil,
    not_false_eq_true, and_true, bne_iff_ne]
  rw [and_assoc]
  apply and_congr_right'
  apply and_congr_right'
  constructor
  · exact fun h => ⟨fun hslash => (h _ hslash).1 rfl, fun hnull => (h _ hnull).2 rfl⟩
  · rintro ⟨hslash, hnull⟩ c hc
    exact ⟨fun he => hslash (he ▸ hc), fun he => hnull (he ▸ hc)⟩

/-- What stands beside a file stands in the same folder. -/
theorem stands_beside (h : place ∈ d.files.keys) (hname : isName name) :
    stands d.folders (place.dropLast ++ [name]) := by
  obtain ⟨folder, last, rfl, hfolder, -⟩ := exists_concat_of_stands (d.isTree.files_stand place h)
  rw [List.dropLast_concat]
  exact stands_concat_iff.2 ⟨hfolder, hname⟩

theorem mem_folders_of_concat (h : place ++ [name] ∈ d.folders) :
    place ∈ d.folders ∧ isName name := by
  rcases d.isTree.folders_stand _ h with hnil | hstands
  · exact absurd hnil (List.append_ne_nil_of_right_ne_nil _ (List.cons_ne_nil _ _))
  · exact stands_concat_iff.1 hstands

theorem isFile_of_mem_folders (h : place ∈ d.folders) : d.isFile place = false := by
  rw [Bool.eq_false_iff, Ne, isFile_iff]
  exact fun hfile => d.isTree.files_notMem place hfile h

theorem enter_of_mem_folders (h : place ∈ d.folders) (hname : isName name) :
    d.enter place name = .ok (place ++ [name]) := by
  obtain ⟨⟨-, -, hdots⟩, hsize, -⟩ := isName_iff.1 hname
  have hfolder : d.isFolder place = true := (isFolder_iff d place).2 h
  unfold enter descend
  rw [isFile_of_mem_folders h, hfolder, if_neg (by simp), if_neg (by simp),
    if_neg (Nat.not_lt.2 hsize), if_neg hdots]

/-- The folders on the way are entered one after the other. -/
theorem foldlM_enter_of_mem_folders (h : place ∈ d.folders) :
    place.foldlM d.enter [] = .ok place := by
  induction place using List.reverseRecOn with
  | nil => rfl
  | append_singleton place name ih =>
    obtain ⟨hplace, hname⟩ := mem_folders_of_concat h
    rw [List.foldlM_append, ih hplace]
    change [name].foldlM d.enter place = _
    rw [List.foldlM_cons, enter_of_mem_folders hplace hname]
    rfl

theorem all_isName_of_mem_folders (h : place ∈ d.folders) : ∀ part ∈ place, isName part := by
  induction place using List.reverseRecOn with
  | nil => exact fun _ hpart => absurd hpart List.not_mem_nil
  | append_singleton place name ih =>
    obtain ⟨hplace, hname⟩ := mem_folders_of_concat h
    rw [List.forall_mem_append, List.forall_mem_singleton]
    exact ⟨ih hplace, hname⟩

theorem text_rooted (parts : List String) :
    Path.text ⟨.root, parts⟩ = "/" ++ String.intercalate "/" parts := by
  unfold Path.text
  dsimp only [Anchor.text]
  rw [if_neg]
  intro h
  have hsize := congrArg String.utf8ByteSize h
  rw [String.utf8ByteSize_append] at hsize
  exact absurd (Nat.eq_zero_of_add_eq_zero_right hsize) (by decide)

theorem utf8ByteSize_text_concat_le (place : Location) (name : String) :
    (Path.text ⟨.root, place ++ [name]⟩).utf8ByteSize ≤
      (Path.text ⟨.root, place⟩).utf8ByteSize + 1 + name.utf8ByteSize := by
  rw [text_rooted, text_rooted]
  cases place with
  | nil =>
    rw [List.nil_append, String.intercalate_singleton, String.utf8ByteSize_append,
      String.utf8ByteSize_append]
    omega
  | cons part place =>
    have hslash : "/".utf8ByteSize = 1 := rfl
    rw [String.intercalate_append_of_ne_nil (List.cons_ne_nil _ _) (List.cons_ne_nil _ _),
      String.intercalate_singleton]
    simp only [String.utf8ByteSize_append, hslash]
    omega

/-- The path of what stands in a folder leads to it. -/
theorem locate_of_stands (h : stands d.folders place) : d.locate ⟨.root, place⟩ = .ok place := by
  obtain ⟨folder, name, rfl, hfolder, hname⟩ := exists_concat_of_stands h
  have hsize : (Path.text ⟨.root, folder ++ [name]⟩).utf8ByteSize ≤ pathLimit := by
    have hroomy := d.isTree.folders_roomy folder hfolder
    unfold isRoomy at hroomy
    rw [decide_eq_true_eq] at hroomy
    have hlength := utf8ByteSize_text_concat_le folder name
    have hname' := (isName_iff.1 hname).2.1
    omega
  unfold locate
  rw [if_neg (Nat.not_lt.2 hsize)]
  change (folder ++ [name]).foldlM d.enter [] = _
  rw [List.foldlM_append, foldlM_enter_of_mem_folders hfolder]
  change [name].foldlM d.enter folder = _
  rw [List.foldlM_cons, enter_of_mem_folders hfolder hname]
  rfl

theorem hasNull_of_stands (h : stands d.folders place) : Path.hasNull ⟨.root, place⟩ = false := by
  obtain ⟨folder, name, rfl, hfolder, hname⟩ := exists_concat_of_stands h
  unfold Path.hasNull
  rw [List.any_eq_false]
  intro part hpart
  have hproper : isName part := by
    rw [List.mem_append, List.mem_singleton] at hpart
    rcases hpart with hpart | rfl
    · exact all_isName_of_mem_folders hfolder part hpart
    · exact hname
  rw [List.contains_iff_mem]
  exact (isName_iff.1 hproper).2.2.2

theorem bytes_of_locate {p : Path} (h : d.locate p = .ok place) : d.bytes p =
    match d.files.find? place with
    | some content => if d.isWithheld place then .error .denied else .ok content
    | none => .error (if d.isFolder place then .isAFolder else .notFound) := by
  unfold bytes
  rw [h]
  rfl

/-- Testing what stands in a folder does not fail. -/
theorem pathIsFile_of_stands (h : stands d.folders place) :
    d.pathIsFile ⟨.root, place⟩ = .ok (d.isFile place) := by
  unfold pathIsFile test
  rw [if_neg (Bool.eq_false_iff.1 (hasNull_of_stands h)), bytes_of_locate (locate_of_stands h)]
  cases hfind : d.files.find? place with
  | some content =>
    have hfile : d.isFile place = true :=
      (isFile_iff d place).2 ((d.files.mem_keys_iff place).2 ⟨content, hfind⟩)
    rw [hfile]
    dsimp only
    by_cases hwithheld : d.isWithheld place
    · rw [if_pos hwithheld]
      rfl
    · rw [if_neg hwithheld]
  | none =>
    have hfile : d.isFile place = false := by
      rw [Bool.eq_false_iff, Ne, isFile_iff]
      exact (d.files.find?_eq_none_iff place).1 hfind
    rw [hfile]
    cases d.isFolder place <;> rfl

/-- A file that is there is read unless it is withheld or no text. -/
theorem readText_of_find? {content : List UInt8} (h : d.files.find? place = some content) :
    d.readText ⟨.root, place⟩ =
      if d.isWithheld place then .error (.access ⟨.denied, Path.text ⟨.root, place⟩⟩)
      else (decodeText content).mapError .undecodable := by
  have hstands := d.isTree.files_stand place ((d.files.mem_keys_iff place).2 ⟨content, h⟩)
  unfold readText
  rw [if_neg (Bool.eq_false_iff.1 (hasNull_of_stands hstands)),
    bytes_of_locate (locate_of_stands hstands), h]
  dsimp only
  by_cases hwithheld : d.isWithheld place
  · rw [if_pos hwithheld, if_pos hwithheld]
  · rw [if_neg hwithheld, if_neg hwithheld]

theorem isTree_iff {files folders : List Location} : IsTree files folders ↔
    (∀ place ∈ files, stands folders place ∧ ¬ folders.contains place) ∧
      ∀ place ∈ folders, (place = [] ∨ stands folders place) ∧ isRoomy place := by
  simp only [List.contains_iff_mem]
  constructor
  · intro h
    exact ⟨fun place hplace => ⟨h.files_stand place hplace, h.files_notMem place hplace⟩,
      fun place hplace => ⟨h.folders_stand place hplace, h.folders_roomy place hplace⟩⟩
  · rintro ⟨hfiles, hfolders⟩
    exact ⟨fun place h => (hfiles place h).1, fun place h => (hfolders place h).1,
      fun place h => (hfolders place h).2, fun place h => (hfiles place h).2⟩

instance (files folders : List Location) : Decidable (IsTree files folders) :=
  decidable_of_iff _ isTree_iff.symm

/-- A disk with the given files, worked on from its root. -/
def holding (folders : List Location) (files : List (Location × List UInt8))
    (h : (files.map Prod.fst).Nodup ∧ IsTree (files.map Prod.fst) folders) : Disk :=
  ⟨[], ⟨files, h.1⟩, folders, [], h.2⟩

end DependencyAudit.Disk
