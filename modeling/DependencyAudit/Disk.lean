import DependencyAudit.Path
import DependencyAudit.Table
import DependencyAudit.Text.Lines
import DependencyAudit.Text.Quoted
import DependencyAudit.Text.Utf8

/-!
# Disks

A disk holds files and folders at locations, each a list of names from the root, and has a working
folder. They form a tree: whatever is there stands in a folder under a proper name. Reading a path
enters its folders one by one, so each of them has to be there even if a double dot leaves it again.
Names and paths have a greatest length, and no folder lies so deep that the path of a name in it
would be too long. A file may be withheld: it is there, but it cannot be opened. Texts are read as
UTF-8 with unified line ends.
-/

namespace DependencyAudit

abbrev Location := List String

namespace Disk

/-- The greatest size of a name, in bytes. -/
def nameLimit : Nat := 255

/-- The greatest size of a path, in bytes. -/
def pathLimit : Nat := 4095

def isName (part : String) : Bool :=
  ! ["", ".", ".."].contains part && part.utf8ByteSize ≤ nameLimit &&
    part.toList.all fun c => c != '/' && c != '\x00'

/-- There is a folder around this location, and it has a proper name there. -/
def stands (folders : List Location) (place : Location) : Bool :=
  folders.contains place.dropLast && place.getLast?.any isName

/-- The path of any name in a folder at this location keeps to the limit. -/
def isRoomy (place : Location) : Bool :=
  (Path.text ⟨.root, place⟩).utf8ByteSize + 1 + nameLimit ≤ pathLimit

structure IsTree (files folders : List Location) : Prop where
  files_stand : ∀ place ∈ files, stands folders place
  folders_stand : ∀ place ∈ folders, place = [] ∨ stands folders place
  folders_roomy : ∀ place ∈ folders, isRoomy place
  files_notMem : ∀ place ∈ files, place ∉ folders

end Disk

structure Disk where
  here : Location
  files : Table Location (List UInt8)
  folders : List Location
  withheld : List Location
  isTree : Disk.IsTree files.keys folders

namespace Disk

/-- Why a path cannot be opened. -/
inductive Cause where
  | notFound
  | denied
  | notAFolder
  | isAFolder
  | nameTooLong
  deriving DecidableEq, Repr

structure AccessError where
  cause : Cause
  path : String
  deriving DecidableEq, Repr

def Cause.message : Cause → String
  | notFound => "[Errno 2] No such file or directory"
  | denied => "[Errno 13] Permission denied"
  | notAFolder => "[Errno 20] Not a directory"
  | isAFolder => "[Errno 21] Is a directory"
  | nameTooLong => "[Errno 36] File name too long"

def AccessError.message (e : AccessError) : String :=
  s!"{e.cause.message}: {Text.quotedString e.path}"

/-- Why a text cannot be read. -/
inductive ReadError where
  | access (e : AccessError)
  | nullCharacter
  | undecodable (f : Text.Utf8.Fault)
  deriving DecidableEq, Repr

def ReadError.message : ReadError → String
  | access e => e.message
  | nullCharacter => "embedded null byte"
  | undecodable f => f.message

def isFile (d : Disk) (place : Location) : Bool := d.files.contains place

def isFolder (d : Disk) (place : Location) : Bool := d.folders.contains place

def isWithheld (d : Disk) (place : Location) : Bool := d.withheld.contains place

def descend (place : Location) (part : String) : Location :=
  if part = ".." then place.dropLast else place ++ [part]

def start (d : Disk) (p : Path) : Location :=
  match p.anchor with
  | .here => d.here
  | _ => []

/-- The location of a path, whether or not the folders on the way are there. -/
def absolute (d : Disk) (p : Path) : Location := p.parts.foldl descend (d.start p)

def enter (d : Disk) (place : Location) (part : String) : Except Cause Location :=
  if d.isFile place then .error .notAFolder
  else if ! d.isFolder place then .error .notFound
  else if nameLimit < part.utf8ByteSize then .error .nameTooLong
  else .ok (descend place part)

def locate (d : Disk) (p : Path) : Except Cause Location :=
  if pathLimit < p.text.utf8ByteSize then .error .nameTooLong
  else p.parts.foldlM d.enter (d.start p)

def bytes (d : Disk) (p : Path) : Except Cause (List UInt8) := do
  let place ← d.locate p
  match d.files.find? place with
  | some content => if d.isWithheld place then throw .denied else return content
  | none => throw (if d.isFolder place then .isAFolder else .notFound)

/-- Tests what opening a path gives. A path with a null character fails every test; one that is too
long cannot be tested. -/
def test (d : Disk) (p : Path) (passes : Except Cause (List UInt8) → Bool) :
    Except AccessError Bool :=
  if p.hasNull then .ok false
  else match d.bytes p with
    | .error .nameTooLong => .error ⟨.nameTooLong, p.text⟩
    | opened => .ok (passes opened)

/-- Also a file that is withheld is one. -/
def pathIsFile (d : Disk) (p : Path) : Except AccessError Bool :=
  d.test p fun
    | .ok _ => true
    | .error cause => cause = .denied

def pathExists (d : Disk) (p : Path) : Except AccessError Bool :=
  d.test p fun
    | .ok _ => true
    | .error cause => cause = .denied || cause = .isAFolder

/-- The location of a folder to be searched, which need not be there. -/
def searchLocation (d : Disk) (p : Path) : Except ReadError Location :=
  let place := d.absolute p
  if p.hasNull then .error .nullCharacter
  else match d.locate ⟨.root, place⟩ with
    | .error .nameTooLong => .error (.access ⟨.nameTooLong, Path.text ⟨.root, place⟩⟩)
    | _ => .ok place

def decodeText (content : List UInt8) : Except Text.Utf8.Fault String :=
  (Text.Utf8.decode content).map fun s => String.ofList (Text.unifyNewlines s)

def readText (d : Disk) (p : Path) : Except ReadError String :=
  if p.hasNull then .error .nullCharacter
  else match d.bytes p with
    | .error cause => .error (.access ⟨cause, p.text⟩)
    | .ok content => (decodeText content).mapError .undecodable

theorem isTree_root : IsTree [] [[]] where
  files_stand _ h := absurd h List.not_mem_nil
  folders_stand _ h := .inl (List.mem_singleton.1 h)
  folders_roomy _ h := List.mem_singleton.1 h ▸ by decide
  files_notMem _ h := absurd h List.not_mem_nil

theorem stands_append {folders : List Location} {place : Location} (h : stands folders place)
    (more : List Location) : stands (folders ++ more) place := by
  unfold stands at h ⊢
  rw [Bool.and_eq_true, List.contains_iff_mem] at h ⊢
  exact ⟨List.mem_append_left more h.1, h.2⟩

theorem IsTree.addFolder {files folders : List Location} {place : Location}
    (h : IsTree files folders) (hstands : stands folders place) (hroomy : isRoomy place)
    (hfree : place ∉ files) : IsTree files (folders ++ [place]) where
  files_stand p hp := stands_append (h.files_stand p hp) [place]
  folders_stand p hp := by
    rw [List.mem_append, List.mem_singleton] at hp
    rcases hp with hp | rfl
    · exact (h.folders_stand p hp).imp_right fun hp => stands_append hp [place]
    · exact .inr (stands_append hstands [p])
  folders_roomy p hp := by
    rw [List.mem_append, List.mem_singleton] at hp
    rcases hp with hp | rfl
    · exact h.folders_roomy p hp
    · exact hroomy
  files_notMem p hp hfolder := by
    rw [List.mem_append, List.mem_singleton] at hfolder
    rcases hfolder with hfolder | rfl
    · exact h.files_notMem p hp hfolder
    · exact hfree hp

theorem IsTree.insert {files : Table Location (List UInt8)} {folders : List Location}
    {place : Location} (h : IsTree files.keys folders) (hstands : stands folders place)
    (hfree : place ∉ folders) (content : List UInt8) :
    IsTree (files.insert place content).keys folders := by
  have hmem : ∀ p ∈ (files.insert place content).keys, p ∈ files.keys ∨ p = place := by
    intro p hp
    rw [Table.keys_insert] at hp
    split at hp
    · exact .inl hp
    · rwa [List.mem_append, List.mem_singleton] at hp
  refine ⟨fun p hp => ?_, h.folders_stand, h.folders_roomy, fun p hp => ?_⟩
  · rcases hmem p hp with hp | rfl
    · exact h.files_stand p hp
    · exact hstands
  · rcases hmem p hp with hp | rfl
    · exact h.files_notMem p hp
    · exact hfree

/-- What is left when everything at a location and below it is gone is still a tree. -/
theorem IsTree.filter {files folders : List Location} (h : IsTree files folders)
    (place : Location) :
    IsTree (files.filter (! place.isPrefixOf ·)) (folders.filter (! place.isPrefixOf ·)) := by
  have hstands : ∀ p, (! place.isPrefixOf p) = true → stands folders p →
      stands (folders.filter (! place.isPrefixOf ·)) p := by
    intro p hp hstands
    unfold stands at hstands ⊢
    rw [Bool.and_eq_true, List.contains_iff_mem] at hstands ⊢
    refine ⟨List.mem_filter.2 ⟨hstands.1, ?_⟩, hstands.2⟩
    rw [Bool.not_eq_true', Bool.eq_false_iff, Ne, List.isPrefixOf_iff_prefix] at hp ⊢
    exact fun hbefore => hp (hbefore.trans (List.dropLast_prefix p))
  refine ⟨fun p hp => ?_, fun p hp => ?_, fun p hp => ?_, fun p hp hfolder => ?_⟩
  · exact hstands p (List.mem_filter.1 hp).2 (h.files_stand p (List.mem_filter.1 hp).1)
  · exact (h.folders_stand p (List.mem_filter.1 hp).1).imp_right
      (hstands p (List.mem_filter.1 hp).2)
  · exact h.folders_roomy p (List.mem_filter.1 hp).1
  · exact h.files_notMem p (List.mem_filter.1 hp).1 (List.mem_filter.1 hfolder).1

/-- Adds a folder to the one around it, if it may stand there. -/
def addOneFolder (d : Disk) (place : Location) : Disk :=
  if h : stands d.folders place ∧ isRoomy place ∧ place ∉ d.files.keys ∧ place ∉ d.folders then
    { d with
      folders := d.folders ++ [place]
      isTree := d.isTree.addFolder h.1 h.2.1 h.2.2.1 }
  else d

/-- Adds a folder with those around it that are not there. -/
def addFolder (d : Disk) (place : Location) : Disk :=
  (List.range (place.length + 1)).foldl (fun d n => d.addOneFolder (place.take n)) d

def empty (here : Location) : Disk :=
  addFolder ⟨here, Table.empty, [[]], [], isTree_root⟩ here

/-- Makes every folder that a path enters, also one that a double dot leaves again. -/
def makeFolders (d : Disk) (p : Path) : Disk :=
  (List.range (p.parts.length + 1)).foldl
    (fun d n => d.addFolder (d.absolute { p with parts := p.parts.take n })) d

/-- Puts a file where one may stand. -/
def addFile (d : Disk) (place : Location) (content : List UInt8) : Disk :=
  if h : stands d.folders place ∧ place ∉ d.folders then
    { d with
      files := d.files.insert place content
      isTree := d.isTree.insert h.1 h.2 content }
  else d

/-- Puts a file at a location, with the folders around it. -/
def write (d : Disk) (place : Location) (content : List UInt8) : Disk :=
  (d.addFolder place.dropLast).addFile place content

def withhold (d : Disk) (place : Location) : Disk := { d with withheld := place :: d.withheld }

/-- Takes a file away, or a folder with all that is in it. -/
def remove (d : Disk) (place : Location) : Disk :=
  { d with
    files := d.files.filterKeys (! place.isPrefixOf ·)
    folders := d.folders.filter (! place.isPrefixOf ·)
    isTree := Table.keys_filterKeys (! place.isPrefixOf ·) d.files ▸ d.isTree.filter place }

end Disk
end DependencyAudit
