import Mathlib.Data.List.Induction
import DependencyAudit.Lock.Merge
import DependencyAudit.Proofs.AuditValue
import DependencyAudit.Proofs.Json.LongNumeral
import DependencyAudit.Proofs.Success
import DependencyAudit.Proofs.TableOfList

/-!
# What a merge comes to

A merge comes out just in case every tag belongs to a format. It then holds the versions of all
files that are read, put together in order: each name stands where it first comes and has the
version that comes last. A file that cannot be read leaves an event behind and nothing else.
-/

namespace DependencyAudit.Lock

open Text

variable {room : Nat} {merged : Table String String} {file : File} {files before : List File}

def File.Registered (file : File) : Prop := ∃ f : Format, file.tag = f.tag

theorem requireFormat_tag (f : Format) : requireFormat f.tag = .ok f := by
  rw [requireFormat, Format.ofTag?_tag]

theorem requireFormat_of_not_registered (h : ¬ file.Registered) :
    requireFormat file.tag = .error ⟨file.tag⟩ := by
  unfold requireFormat
  split
  · rename_i f hf
    have htag := List.find?_some hf
    exact absurd ⟨f, (of_decide_eq_true htag).symm⟩ h
  · rfl

/-- What the reader of its format makes of a file. Nothing reads a blank file. -/
def File.reading? (room : Nat) (file : File) : Option (Except Json.Limit (Table String String)) :=
  if isBlankText file.text then none
  else (Format.ofTag? file.tag).map fun format => read room format file.text

/-- The versions of a file that is read. -/
def File.versions? (room : Nat) (file : File) : Option (Table String String) :=
  (file.reading? room).bind Except.toOption

/-- The reader of the file fails. -/
def File.fails (room : Nat) (file : File) : Bool :=
  (file.reading? room).any fun reading => ! reading.isOk

def File.entries (room : Nat) (file : File) : List (String × String) :=
  (file.versions? room).elim [] Table.entries

def File.failure (room : Nat) (file : File) : List Event :=
  if file.fails room then [.lockUnparsed file.tag] else []

theorem mergeFile_of_blank {f : Format} (htag : file.tag = f.tag)
    (hblank : isBlankText file.text) : mergeFile room merged file = pure merged := by
  unfold mergeFile
  rw [htag, requireFormat_tag, Audit.liftExcept_ok_bind, if_pos hblank]

theorem mergeFile_of_not_blank {f : Format} (htag : file.tag = f.tag)
    (hblank : ¬ isBlankText file.text) : mergeFile room merged file =
      match read room f file.text with
      | .ok versions => pure (merged.insertAll versions.entries)
      | .error _ => do
        Logged.note (.lockUnparsed file.tag)
        return merged := by
  unfold mergeFile
  rw [htag, requireFormat_tag, Audit.liftExcept_ok_bind]
  exact if_neg hblank

theorem reading?_of_not_blank {f : Format} (htag : file.tag = f.tag)
    (hblank : ¬ isBlankText file.text) : file.reading? room = some (read room f file.text) := by
  rw [File.reading?, if_neg hblank, htag, Format.ofTag?_tag]
  rfl

theorem File.Registered.mergeFile (h : file.Registered) (merged : Table String String) :
    (mergeFile room merged file).value = .ok (merged.insertAll (file.entries room)) ∧
      (mergeFile room merged file).events = file.failure room := by
  obtain ⟨f, htag⟩ := h
  unfold File.entries File.failure File.versions? File.fails
  by_cases hblank : isBlankText file.text
  · have hreading : file.reading? room = none := if_pos hblank
    rw [mergeFile_of_blank htag hblank, hreading]
    exact ⟨rfl, rfl⟩
  · rw [mergeFile_of_not_blank htag hblank, reading?_of_not_blank htag hblank]
    cases read room f file.text with
    | ok versions => exact ⟨rfl, rfl⟩
    | error l => exact ⟨rfl, rfl⟩

theorem mergeFile_of_not_registered (h : ¬ file.Registered) :
    mergeFile room merged file = throw ⟨file.tag⟩ := by
  unfold Lock.mergeFile
  rw [requireFormat_of_not_registered h]
  rfl

/-- All entries that are read, in order. -/
def entriesOf (room : Nat) (files : List File) : List (String × String) :=
  files.flatMap (File.entries room)

def failuresOf (room : Nat) (files : List File) : List Event :=
  files.flatMap (File.failure room)

/-- What holds of one file more is put on top of what holds of the files before. -/
theorem foldlM_mergeFile (h : ∀ file ∈ files, file.Registered) (merged : Table String String) :
    Audit.value (files.foldlM (mergeFile room) merged) =
        .ok (merged.insertAll (entriesOf room files)) ∧
      Audit.events (files.foldlM (mergeFile room) merged) = failuresOf room files := by
  induction files generalizing merged with
  | nil => exact ⟨rfl, rfl⟩
  | cons file files ih =>
    rw [List.forall_mem_cons] at h
    obtain ⟨hvalue, hevents⟩ := h.1.mergeFile merged
    obtain ⟨ihvalue, ihevents⟩ := ih h.2 (merged.insertAll (file.entries room))
    rw [List.foldlM_cons, Audit.value_bind, hvalue, Audit.events_bind_of_ok hvalue, hevents,
      ihevents]
    refine ⟨?_, rfl⟩
    rw [entriesOf, List.flatMap_cons, Table.insertAll_append]
    exact ihvalue

theorem value_merge (h : ∀ file ∈ files, file.Registered) :
    (merge room files).value = .ok (Table.ofList (entriesOf room files)) := (foldlM_mergeFile h _).1

theorem events_merge (h : ∀ file ∈ files, file.Registered) :
    (merge room files).events = failuresOf room files := (foldlM_mergeFile h _).2

theorem merge_of_not_registered (h : ∀ file ∈ before, file.Registered) (hfile : ¬ file.Registered)
    (after : List File) : (merge room (before ++ file :: after)).value = .error ⟨file.tag⟩ ∧
      (merge room (before ++ file :: after)).events = failuresOf room before := by
  have hrest : ∀ merged, (file :: after).foldlM (mergeFile room) merged = throw ⟨file.tag⟩ := by
    intro merged
    rw [List.foldlM_cons, mergeFile_of_not_registered hfile]
    rfl
  obtain ⟨hvalue, hevents⟩ := foldlM_mergeFile h Table.empty
  rw [merge, List.foldlM_append, Audit.value_bind, hvalue, Audit.events_bind_of_ok hvalue, hevents]
  simp only [hrest]
  exact ⟨rfl, List.append_nil _⟩

theorem exists_first_not_registered (h : ∃ file ∈ files, ¬ file.Registered) :
    ∃ before file after, files = before ++ file :: after ∧ (∀ f ∈ before, f.Registered) ∧
      ¬ file.Registered := by
  induction files with
  | nil => simp at h
  | cons file files ih =>
    by_cases hfile : file.Registered
    · obtain ⟨g, hg, hnot⟩ := h
      have hne : g ≠ file := fun heq => hnot (heq ▸ hfile)
      obtain ⟨before, first, after, rfl, hbefore, hfirst⟩ :=
        ih ⟨g, (List.mem_cons.1 hg).resolve_left hne, hnot⟩
      exact ⟨file :: before, first, after, rfl, List.forall_mem_cons.2 ⟨hfile, hbefore⟩, hfirst⟩
    · exact ⟨[], file, files, rfl, fun _ hf => absurd hf List.not_mem_nil, hfile⟩

/-- A merge comes out just in case every file has a registered format. -/
theorem exists_value_merge_iff :
    (∃ locked, (merge room files).value = .ok locked) ↔ ∀ file ∈ files, file.Registered := by
  refine ⟨?_, fun h => ⟨_, value_merge h⟩⟩
  rintro ⟨locked, hlocked⟩
  by_contra hnot
  push Not at hnot
  obtain ⟨before, file, after, rfl, hbefore, hfile⟩ := exists_first_not_registered hnot
  rw [(merge_of_not_registered hbefore hfile after).1] at hlocked
  exact nomatch hlocked

theorem entriesOf_eq (room : Nat) (files : List File) :
    entriesOf room files = (files.filterMap (File.versions? room)).flatMap Table.entries := by
  induction files with
  | nil => rfl
  | cons file files ih =>
    rw [entriesOf, List.flatMap_cons, List.filterMap_cons, ← entriesOf, ih, File.entries]
    cases file.versions? room <;> rfl

theorem failuresOf_eq (room : Nat) (files : List File) :
    failuresOf room files =
      (files.filter (File.fails room)).map fun file => .lockUnparsed file.tag := by
  induction files with
  | nil => rfl
  | cons file files ih =>
    rw [failuresOf, List.flatMap_cons, ← failuresOf, ih, File.failure]
    by_cases h : file.fails room <;> simp [h]

theorem lookup_flatMap_entries (tables : List (Table String String)) (name : String) :
    (tables.flatMap Table.entries).reverse.lookup name =
      (tables.filterMap (·.find? name)).getLast? := by
  induction tables using List.reverseRecOn with
  | nil => rfl
  | append_singleton tables t ih =>
    have hlast : ([t].filterMap (·.find? name)).getLast? = t.entries.lookup name := by
      have hfind : t.entries.lookup name = t.find? name := rfl
      rw [hfind]
      cases h : t.find? name <;> simp [h]
    rw [List.flatMap_append, List.flatMap_singleton, List.reverse_append, List.lookup_append,
      Table.lookup_reverse t.nodup, ih, List.filterMap_append, List.getLast?_append, hlast]

/-- What files come to together. Each name stands where it first comes and has its last version, and
each file that cannot be read has left its event. -/
structure Merges (room : Nat) (files : List File) (merged : Table String String)
    (events : List Event) : Prop where
  keys_eq : merged.keys = ((files.filterMap (File.versions? room)).flatMap Table.keys).eraseDups
  find?_eq : ∀ name, merged.find? name =
    ((files.filterMap (File.versions? room)).filterMap (·.find? name)).getLast?
  events_eq : events = (files.filter (File.fails room)).map fun file => .lockUnparsed file.tag

theorem merges_ofList (room : Nat) (files : List File) :
    Merges room files (Table.ofList (entriesOf room files)) (failuresOf room files) where
  keys_eq := by
    rw [Table.keys_ofList, entriesOf_eq, List.map_flatMap]
    rfl
  find?_eq name := by rw [Table.find?_ofList, entriesOf_eq, lookup_flatMap_entries]
  events_eq := failuresOf_eq room files

/-- Files with registered formats always come to a merge, to which more files can be added. The
first file without a format ends a merge, whatever its text. -/
theorem merge_laterPrevails (room : Nat) (files : List File) :
    ((∀ file ∈ files, file.Registered) →
      ∃ merged, (merge room files).value = .ok merged ∧
        Merges room files merged (merge room files).events ∧
        ∀ more, (∀ file ∈ more, file.Registered) → ∃ added, (merge room more).value = .ok added ∧
          (merge room (files ++ more)).value = .ok (merged.insertAll added.entries)) ∧
    ((∃ file ∈ files, ¬ file.Registered) →
      ∃ before file after, files = before ++ file :: after ∧ (∀ f ∈ before, f.Registered) ∧
        ¬ file.Registered ∧ (merge room files).value = .error ⟨file.tag⟩ ∧
        (merge room files).events =
          (before.filter (File.fails room)).map fun f => .lockUnparsed f.tag) := by
  constructor
  · intro h
    refine ⟨_, value_merge h, events_merge h ▸ merges_ofList room files, fun more hmore => ?_⟩
    have hall : ∀ file ∈ files ++ more, file.Registered := List.forall_mem_append.2 ⟨h, hmore⟩
    refine ⟨_, value_merge hmore, ?_⟩
    rw [value_merge hall, Table.insertAll_ofList, entriesOf, List.flatMap_append]
    exact congrArg Except.ok (Table.insertAll_append _ _ _)
  · intro h
    obtain ⟨before, file, after, rfl, hbefore, hfile⟩ := exists_first_not_registered h
    obtain ⟨hvalue, hevents⟩ := merge_of_not_registered hbefore hfile after
    exact ⟨before, file, after, rfl, hbefore, hfile, hvalue,
      hevents.trans (failuresOf_eq room before)⟩

def fileOf (f : Format) (text : String) : File := ⟨f.tag, text, by cases f <;> decide⟩

def npmFile : File := fileOf .npm
  ("\x7b\"dependencies\": \x7b\"a\": \x7b\"version\": \"1.0.0\"\x7d, " ++
    "\"b\": \x7b\"version\": \"1.0.0\"\x7d\x7d\x7d")

def blankFile : File := fileOf .pnpm " \n"

/-- Its only numeral is too long. -/
def onesFile : File := fileOf .npm (String.ofList ('1' :: List.replicate digitLimit '1'))

def yarnFile : File := fileOf .yarn
  "c@^3.0.0:\n  version \"3.0.0\"\na@^1.0.0:\n  version \"2.0.0\"\n"

def strayFile : File := ⟨"bun.lock", "", by decide⟩

def sampleFiles : List File := [npmFile, blankFile, onesFile, yarnFile]

theorem registered_sampleFiles : ∀ file ∈ sampleFiles, file.Registered := by
  intro file hfile
  simp only [sampleFiles, List.mem_cons, List.not_mem_nil, or_false] at hfile
  rcases hfile with rfl | rfl | rfl | rfl
  · exact ⟨.npm, rfl⟩
  · exact ⟨.pnpm, rfl⟩
  · exact ⟨.npm, rfl⟩
  · exact ⟨.yarn, rfl⟩

theorem not_registered_strayFile : ¬ strayFile.Registered := by
  rintro ⟨f, hf⟩
  cases f <;> exact absurd hf (by decide)

theorem reading?_of_long {ds : List Char} (hds : ∀ c ∈ ds, Json.isAsciiDigit c)
    (hlong : digitLimit ≤ ds.length) (htag : file.tag = Format.npm.tag)
    (htext : file.text = String.ofList ('1' :: ds)) :
    file.reading? room = some (.error (.longNumeral ⟨ds.length + 1⟩)) := by
  have hblank : ¬ isBlankText file.text := by
    have hone : isBlank '1' = false := rfl
    rw [htext, isBlankText, String.toList_ofList, List.all_cons, hone, Bool.false_and]
    exact Bool.false_ne_true
  rw [reading?_of_not_blank htag hblank, htext, read, Npm.read, Json.parse_longNumeral hds hlong]

theorem entriesOf_sampleFiles :
    entriesOf 990 sampleFiles =
      [("a", "1.0.0"), ("b", "1.0.0"), ("c", "3.0.0"), ("a", "2.0.0")] := by
  have hnpm : npmFile.entries 990 = [("a", "1.0.0"), ("b", "1.0.0")] := by decide +kernel
  have hblank : blankFile.entries 990 = [] := by decide +kernel
  have hones : onesFile.entries 990 = [] := by
    have hdigits : ∀ c ∈ List.replicate digitLimit '1', Json.isAsciiDigit c :=
      fun c hc => List.eq_of_mem_replicate hc ▸ rfl
    have hlong : digitLimit ≤ (List.replicate digitLimit '1').length :=
      Nat.le_of_eq List.length_replicate.symm
    have hreading : onesFile.reading? 990 = _ := reading?_of_long hdigits hlong rfl rfl
    rw [File.entries, File.versions?, hreading]
    rfl
  have hyarn : yarnFile.entries 990 = [("c", "3.0.0"), ("a", "2.0.0")] := by decide +kernel
  rw [entriesOf, sampleFiles]
  simp only [List.flatMap_cons, List.flatMap_nil, hnpm, hblank, hones, hyarn]
  rfl

/-- The name that comes again keeps its place and has its last version. -/
theorem merge_sampleFiles :
    ((∀ file ∈ sampleFiles, file.Registered) ∧
      ∃ merged, (merge 990 sampleFiles).value = .ok merged ∧
        merged.entries = [("a", "2.0.0"), ("b", "1.0.0"), ("c", "3.0.0")] ∧
        Merges 990 sampleFiles merged (merge 990 sampleFiles).events ∧
        ∃ added, (merge 990 [npmFile]).value = .ok added ∧
          (merge 990 (sampleFiles ++ [npmFile])).value = .ok (merged.insertAll added.entries)) ∧
    (∃ file ∈ sampleFiles ++ [strayFile], ¬ file.Registered) ∧
      ∃ before file after, sampleFiles ++ [strayFile] = before ++ file :: after ∧
        (∀ f ∈ before, f.Registered) ∧ ¬ file.Registered ∧
        (merge 990 (sampleFiles ++ [strayFile])).value = .error ⟨file.tag⟩ ∧
        (merge 990 (sampleFiles ++ [strayFile])).events =
          (before.filter (File.fails 990)).map fun f => .lockUnparsed f.tag := by
  have hstray : ∃ file ∈ sampleFiles ++ [strayFile], ¬ file.Registered :=
    ⟨strayFile, by simp, not_registered_strayFile⟩
  have hnpm : ∀ file ∈ [npmFile], file.Registered :=
    fun file hfile => List.mem_singleton.1 hfile ▸ ⟨.npm, rfl⟩
  obtain ⟨merged, hmerged, hmerges, hmore⟩ :=
    (merge_laterPrevails 990 sampleFiles).1 registered_sampleFiles
  refine ⟨⟨registered_sampleFiles, merged, hmerged, ?_, hmerges, hmore [npmFile] hnpm⟩, hstray,
    (merge_laterPrevails 990 (sampleFiles ++ [strayFile])).2 hstray⟩
  rw [value_merge registered_sampleFiles, entriesOf_sampleFiles] at hmerged
  rw [← Except.ok.inj hmerged]
  decide

end DependencyAudit.Lock
