import Mathlib.Data.List.Infix
import Mathlib.Data.List.Induction
import DependencyAudit.Proofs.AuditValue
import DependencyAudit.Proofs.Success
import DependencyAudit.Scan

/-!
# What a project depends on

A project is told by its manifest, by what stands in the places of the lock files beside it and by
the folders around it. Two disks that agree there have the same project, events included.
-/

namespace DependencyAudit

theorem filterM_congr {m : Type → Type} [Monad m] {α : Type} {f g : α → m Bool} {xs : List α}
    (h : ∀ x ∈ xs, f x = g x) : xs.filterM f = xs.filterM g := by
  have haux : ∀ kept : List α, xs.filterAuxM f kept = xs.filterAuxM g kept := by
    induction xs with
    | nil => exact fun _ => rfl
    | cons x xs ih =>
      intro kept
      rw [List.filterAuxM, List.filterAuxM, h x List.mem_cons_self]
      congr 1
      funext b
      exact ih (fun y hy => h y (List.mem_cons_of_mem _ hy)) _
  rw [List.filterM, List.filterM, haux]

theorem mapM_congr {m : Type → Type} [Monad m] [LawfulMonad m] {α β : Type} {f g : α → m β}
    {xs : List α} (h : ∀ x ∈ xs, f x = g x) : xs.mapM f = xs.mapM g := by
  induction xs with
  | nil => rfl
  | cons x xs ih =>
    rw [List.mapM_cons, List.mapM_cons, h x List.mem_cons_self,
      ih fun y hy => h y (List.mem_cons_of_mem _ hy)]

theorem prefix_dropLast_of_concat {α : Type} {before parts : List α} {a : α}
    (h : before ++ [a] <+: parts) : before <+: parts.dropLast := by
  obtain ⟨rest, rfl⟩ := h
  rw [List.append_assoc, List.dropLast_append_of_ne_nil (List.append_ne_nil_of_left_ne_nil
    (List.cons_ne_nil _ _) _)]
  exact List.prefix_append _ _

namespace Disk

variable {d d' : Disk}

/-- The location that names lead to from the root. -/
def destination (parts : List String) : Location := parts.foldl descend []

theorem destination_concat (parts : List String) (part : String) :
    destination (parts ++ [part]) = descend (destination parts) part := List.foldl_concat ..

/-- Nothing but the contents of a file tells the disks apart here. -/
def SameKind (d d' : Disk) (place : Location) : Prop :=
  d.isFile place = d'.isFile place ∧ d.isFolder place = d'.isFolder place

def SameAt (d d' : Disk) (place : Location) : Prop :=
  d.files.find? place = d'.files.find? place ∧ d.isFolder place = d'.isFolder place ∧
    d.isWithheld place = d'.isWithheld place

theorem enter_congr {place : Location} (h : SameKind d d' place) (part : String) :
    d.enter place part = d'.enter place part := by
  unfold enter
  rw [h.1, h.2]

theorem eq_descend_of_enter {place place' : Location} {part : String}
    (h : d.enter place part = .ok place') : place' = descend place part := by
  unfold enter at h
  split at h
  · contradiction
  · split at h
    · contradiction
    · split at h
      · contradiction
      · exact (Except.ok.inj h).symm

theorem eq_destination_of_foldlM_enter {parts : List String} {place : Location}
    (h : parts.foldlM d.enter [] = .ok place) : place = destination parts := by
  induction parts using List.reverseRecOn generalizing place with
  | nil => exact (Except.ok.inj h).symm
  | append_singleton parts part ih =>
    rw [List.foldlM_append, Success.bind_eq_ok_iff] at h
    obtain ⟨before, hbefore, h⟩ := h
    rw [List.foldlM_cons, Success.bind_eq_ok_iff] at h
    obtain ⟨after, hafter, h⟩ := h
    rw [← Except.ok.inj h, eq_descend_of_enter hafter, ih hbefore, destination_concat]

theorem foldlM_enter_congr {parts : List String}
    (h : ∀ before part, before ++ [part] <+: parts → SameKind d d' (destination before)) :
    parts.foldlM d.enter [] = parts.foldlM d'.enter [] := by
  induction parts using List.reverseRecOn with
  | nil => rfl
  | append_singleton parts part ih =>
    have hparts := ih fun before part hinitial =>
      h before part (hinitial.trans (List.prefix_append parts [_]))
    rw [List.foldlM_append, List.foldlM_append, ← hparts]
    cases hplace : parts.foldlM d.enter [] with
    | error e => rfl
    | ok place =>
      have hsame : d.enter place part = d'.enter place part := by
        rw [eq_destination_of_foldlM_enter hplace]
        exact enter_congr (h parts part (List.prefix_refl _)) part
      change [part].foldlM d.enter place = [part].foldlM d'.enter place
      rw [List.foldlM_cons, List.foldlM_cons, hsame]
      rfl

theorem eq_destination_of_locate {parts : List String} {place : Location}
    (h : d.locate ⟨.root, parts⟩ = .ok place) : place = destination parts := by
  unfold locate at h
  split at h
  · exact nomatch h
  · exact eq_destination_of_foldlM_enter h

theorem bytes_congr {parts : List String}
    (haround : ∀ before part, before ++ [part] <+: parts → SameKind d d' (destination before))
    (hplace : SameAt d d' (destination parts)) :
    d.bytes ⟨.root, parts⟩ = d'.bytes ⟨.root, parts⟩ := by
  have hlocate : d.locate ⟨.root, parts⟩ = d'.locate ⟨.root, parts⟩ := by
    unfold locate
    rw [show parts.foldlM d.enter (d.start ⟨.root, parts⟩) = parts.foldlM d'.enter [] from
      foldlM_enter_congr haround]
    rfl
  unfold bytes
  rw [← hlocate]
  cases h : d.locate ⟨.root, parts⟩ with
  | error e => rfl
  | ok place =>
    simp only [eq_destination_of_locate h, bind, Except.bind]
    rw [hplace.1, hplace.2.1, hplace.2.2]

theorem pathIsFile_congr {p : Path} (h : d.bytes p = d'.bytes p) :
    d.pathIsFile p = d'.pathIsFile p := by
  unfold pathIsFile test
  rw [h]

theorem readText_congr {p : Path} (h : d.bytes p = d'.bytes p) : d.readText p = d'.readText p := by
  unfold readText
  rw [h]

end Disk

namespace Scan

open KnownBad

variable {d d' : Disk} {place parts : Location} {lockNames : List String}

/-- Every name is the tag of a lock format. -/
def Registered (lockNames : List String) : Prop :=
  ∀ name ∈ lockNames, ∃ f : Lock.Format, f.tag = name

def lockPath (manifest : Location) (f : Lock.Format) : Path := ⟨.root, manifest.dropLast ++ [f.tag]⟩

def lockPlace (manifest : Location) (f : Lock.Format) : Location :=
  Disk.destination manifest.dropLast ++ [f.tag]

/-- The disks agree on the places of the lock files beside a manifest and on the folders around
it. -/
structure SameBeside (d d' : Disk) (manifest : Location) : Prop where
  around : ∀ folder, folder <+: manifest.dropLast → Disk.SameKind d d' (Disk.destination folder)
  locks : ∀ f, Disk.SameAt d d' (lockPlace manifest f)

theorem destination_lockPath (manifest : Location) (f : Lock.Format) :
    Disk.destination (lockPath manifest f).parts = lockPlace manifest f := by
  rw [lockPath, lockPlace, Disk.destination_concat]
  cases f <;> rfl

theorem bytes_lockPath_congr {manifest : Location} (h : SameBeside d d' manifest)
    (f : Lock.Format) : d.bytes (lockPath manifest f) = d'.bytes (lockPath manifest f) := by
  apply Disk.bytes_congr
  · intro before part hinitial
    apply h.around before
    have hfolder : before <+: (manifest.dropLast ++ [f.tag]).dropLast :=
      prefix_dropLast_of_concat hinitial
    rwa [List.dropLast_concat] at hfolder
  · change Disk.SameAt d d' (Disk.destination (lockPath manifest f).parts)
    rw [destination_lockPath]
    exact h.locks f

theorem join_ofText_tag (manifest : Location) (f : Lock.Format) :
    (Path.parent ⟨.root, manifest⟩).join (Path.ofText f.tag) = lockPath manifest f := by
  cases f <;> rfl

theorem mem_lockPaths {path : Path} (hnames : Registered lockNames)
    (h : path ∈ lockNames.map fun name =>
      (Path.parent ⟨.root, place ++ parts⟩).join (Path.ofText name)) :
    ∃ f, path = lockPath (place ++ parts) f := by
  obtain ⟨name, hname, rfl⟩ := List.mem_map.1 h
  obtain ⟨f, rfl⟩ := hnames name hname
  exact ⟨f, join_ofText_tag _ f⟩

theorem locksBeside_congr (hnames : Registered lockNames) (h : SameBeside d d' (place ++ parts)) :
    Discovery.locksBeside d ⟨.root, place ++ parts⟩ lockNames =
      Discovery.locksBeside d' ⟨.root, place ++ parts⟩ lockNames := by
  apply filterM_congr
  intro path hpath
  obtain ⟨f, rfl⟩ := mem_lockPaths hnames hpath
  exact Disk.pathIsFile_congr (bytes_lockPath_congr h f)

theorem eq_lockPath_of_mem_locksBeside (hnames : Registered lockNames) {beside : List Path}
    (h : Discovery.locksBeside d ⟨.root, place ++ parts⟩ lockNames = .ok beside) :
    ∀ path ∈ beside, ∃ f, path = lockPath (place ++ parts) f := by
  intro path hpath
  rw [((Success.filterM_eq_ok_iff _ _).1 h).2] at hpath
  exact mem_lockPaths hnames (List.mem_of_mem_filter hpath)

theorem readLocks_congr {root : Location} {paths : List Path}
    (h : ∀ path ∈ paths, d.bytes path = d'.bytes path) :
    readLocks d root paths = readLocks d' root paths := by
  unfold readLocks
  congr 1
  apply mapM_congr
  intro path hpath
  unfold readLock
  rw [Disk.readText_congr (h path hpath)]

/-- What comes of a project once its manifest and its lock files are read. -/
def report (room : Classification.Room) (path : String) (knownBad : List Entry)
    (read : Except Disk.ReadError String) (locks : List Lock.File) : Audit Error Project :=
  match read with
  | .error e =>
    match readFault? e with
    | some e => fail path e
    | none => throw (.inaccessible e)
  | .ok text => do
    let classified : Logged (Except Classification.Error Classification) :=
      Classification.classify room text locks knownBad
    match ← ExceptT.lift classified with
    | .ok c => succeed path locks c
    | .error e =>
      match projectError? e with
      | some e => fail path e
      | none => throw (.classification e)

theorem project_eq (room : Classification.Room) (knownBad : List Entry) :
    project room d place knownBad lockNames parts = (do
      let beside ← (Discovery.locksBeside d ⟨.root, place ++ parts⟩ lockNames).mapError
        fun e => Error.inaccessible (.access e)
      let locks ← readLocks d place beside
      report room (Discovery.relativeText parts) knownBad (d.readText ⟨.root, place ++ parts⟩)
        locks) := by
  unfold project report
  rfl

theorem readText_manifest_congr {manifest : Location} (h : SameBeside d d' manifest)
    (hown : Disk.SameAt d d' (Disk.destination manifest)) :
    d.readText ⟨.root, manifest⟩ = d'.readText ⟨.root, manifest⟩ := by
  apply Disk.readText_congr
  apply Disk.bytes_congr
  · intro before part hinitial
    exact h.around before (prefix_dropLast_of_concat hinitial)
  · exact hown

/-- A project depends on nothing but its manifest, the lock files beside it and the folders around
it. -/
theorem project_congr (room : Classification.Room) (knownBad : List Entry)
    (hnames : Registered lockNames)
    (hown : Disk.SameAt d d' (Disk.destination (place ++ parts)))
    (h : SameBeside d d' (place ++ parts)) :
    project room d place knownBad lockNames parts =
      project room d' place knownBad lockNames parts := by
  rw [project_eq, project_eq, ← locksBeside_congr hnames h, readText_manifest_congr h hown]
  cases hbeside : Discovery.locksBeside d ⟨.root, place ++ parts⟩ lockNames with
  | error e => simp only [Except.mapError, Audit.liftExcept_error_bind]
  | ok beside =>
    have hlocks : readLocks d place beside = readLocks d' place beside := by
      apply readLocks_congr
      intro path hpath
      obtain ⟨f, rfl⟩ := eq_lockPath_of_mem_locksBeside hnames hbeside path hpath
      exact bytes_lockPath_congr h f
    simp only [Except.mapError, Audit.liftExcept_ok_bind, hlocks]

end Scan
end DependencyAudit
