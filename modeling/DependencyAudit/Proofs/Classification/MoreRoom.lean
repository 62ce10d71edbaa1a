import DependencyAudit.Proofs.Classification.Passes
import DependencyAudit.Proofs.Json.Nesting
import DependencyAudit.Proofs.Lock.Merging

/-!
# Classifications with more room

A manifest that is read is read alike where there is more room for nesting, and so is a lock file. A
lock file that runs out of room contributes nothing, so more room makes a difference to a
classification only if it lets one more lock file be decoded. For every room there is such a file.
-/

namespace DependencyAudit

open Json

theorem Manifest.parse_of_le {room room' : Nat} (hroom : room ≤ room') {text : String}
    {m : Manifest} (h : Manifest.parse room text = .ok m) : Manifest.parse room' text = .ok m := by
  unfold Manifest.parse at h ⊢
  cases hjson : Json.parse room text with
  | ok document =>
    rw [hjson] at h
    rw [Json.parse_of_le hroom hjson]
    exact h
  | error e =>
    rw [hjson] at h
    cases e <;> exact nomatch h

namespace Lock

variable {room room' : Nat} {file : File} {files : List File}

/-- What can be decoded with the larger room does not run out of the smaller one. -/
def DecodedAlike (room room' : Nat) (text : String) : Prop :=
  ∀ v, Json.parse room' text = .ok v → WithinNestingLimit room text

/-- No file in the format of package-lock.json is decoded with the larger room only. -/
def File.ReadAlike (room room' : Nat) (file : File) : Prop :=
  file.tag = Format.npm.tag → DecodedAlike room room' file.text

/-- The entries that come of a reading. A reading that fails has none. -/
def readEntries (reading : Except Limit (Table String String)) : List (String × String) :=
  reading.toOption.elim [] Table.entries

theorem exists_read_eq_error {text : String} (h : ¬ WithinNestingLimit room text) :
    ∃ l, Npm.read room text = .error l := by
  unfold WithinNestingLimit at h
  push Not at h
  obtain ⟨container, hlimit⟩ := h
  refine ⟨.nesting container, ?_⟩
  unfold Npm.read
  rw [hlimit]

theorem readEntries_npm_of_le (hroom : room ≤ room') {text : String}
    (h : DecodedAlike room room' text) :
    readEntries (Npm.read room' text) = readEntries (Npm.read room text) := by
  by_cases hwithin : WithinNestingLimit room text
  · unfold Npm.read
    rw [hwithin.parse_eq hroom]
  · obtain ⟨l, hl⟩ := exists_read_eq_error hwithin
    rw [hl]
    -- whatever stops the reader, with more room as well, leaves it without entries
    unfold Npm.read
    cases hjson : Json.parse room' text with
    | ok v => exact absurd (h v hjson) hwithin
    | error e => cases e <;> rfl

theorem entries_eq_readEntries {f : Format} (htag : file.tag = f.tag) :
    file.entries room =
      if Text.isBlankText file.text then [] else readEntries (read room f file.text) := by
  unfold File.entries File.versions?
  by_cases hblank : Text.isBlankText file.text
  · rw [if_pos hblank, File.reading?, if_pos hblank]
    rfl
  · rw [if_neg hblank, reading?_of_not_blank htag hblank]
    rfl

theorem File.Registered.entries_of_le (hfile : file.Registered) (hroom : room ≤ room')
    (h : file.ReadAlike room room') : file.entries room' = file.entries room := by
  obtain ⟨f, htag⟩ := hfile
  rw [entries_eq_readEntries htag, entries_eq_readEntries htag]
  cases f with
  | npm =>
    change (if _ then _ else readEntries (Npm.read room' file.text)) = _
    rw [readEntries_npm_of_le hroom (h htag)]
    rfl
  | yarn => rfl
  | pnpm => rfl

theorem value_merge_of_le (hfiles : ∀ file ∈ files, file.Registered) (hroom : room ≤ room')
    (h : ∀ file ∈ files, file.ReadAlike room room') :
    (merge room' files).value = (merge room files).value := by
  have hentries : entriesOf room' files = entriesOf room files :=
    List.flatMap_congr fun file hfile => (hfiles file hfile).entries_of_le hroom (h file hfile)
  rw [value_merge hfiles, value_merge hfiles, hentries]

def packagesText : List Char :=
  "\x7b\"packages\":\x7b\"node_modules/x\":\x7b\"version\":\"1.0.0\"\x7d\x7d,\"x\":".toList

/-- A package-lock.json with so many arrays inside each other beside its packages. -/
def deepLock (n : Nat) : List Char := packagesText ++ (nestedText n ++ ['\x7d'])

def deepPackages : Value := .object [("node_modules/x", .object [("version", .str "1.0.0")])]

/-- The packages are read before the arrays. -/
theorem readFrom_deepLock (room n : Nat) :
    readFrom (room + 3) (.value []) 0 (deepLock n) =
      readFrom (room + 3) (.value [.object [("packages", deepPackages)] "x"]) 0
        (nestedText n ++ ['\x7d']) := rfl

theorem head?_deepLock (n : Nat) :
    (String.ofList (deepLock n)).toList.head? ≠ some '\uFEFF' := by
  rw [String.toList_ofList, show (deepLock n).head? = some '\x7b' from rfl]
  decide

theorem parse_deepLock {room n : Nat} (hroom : n < room + 2) :
    Json.parse (room + 3) (String.ofList (deepLock n)) =
      .ok (.object [("packages", deepPackages), ("x", nestedArray n)]) := by
  rw [parse_of_head?_ne (head?_deepLock n), String.toList_ofList, readFrom_deepLock,
    readFrom_nestedText (.value _) (by rw [List.length_singleton]; omega)]
  rfl

theorem parse_deepLock_of_le {room n : Nat} (hroom : room + 2 ≤ n) :
    Json.parse (room + 3) (String.ofList (deepLock n)) = .error (.limit (.nesting .array)) := by
  rw [parse_of_head?_ne (head?_deepLock n), String.toList_ofList, readFrom_deepLock,
    readFrom_nestedText_of_le (.value _) (by rw [List.length_singleton]; omega)]

/-- The lock file of a project whose known-bad version is locked below so many arrays. -/
def deepFile (n : Nat) : File :=
  ⟨"package-lock.json", String.ofList (deepLock n), by decide⟩

theorem isBlankText_deepFile (n : Nat) : Text.isBlankText (deepFile n).text = false := by
  have hcons : deepLock n = '\x7b' :: (deepLock n).tail := rfl
  unfold Text.isBlankText deepFile
  rw [String.toList_ofList, hcons, List.all_cons, Bool.and_eq_false_imp]
  exact fun h => absurd h (by decide)

/-- One array more than there is room for and nothing is read. -/
theorem entries_deepFile (room n : Nat) :
    (deepFile n).entries (room + 3) = if n < room + 2 then [("x", "1.0.0")] else [] := by
  rw [entries_eq_readEntries (f := .npm) rfl, isBlankText_deepFile]
  change readEntries (Npm.read (room + 3) (String.ofList (deepLock n))) = _
  by_cases hroom : n < room + 2
  · rw [Npm.read, parse_deepLock hroom, if_pos hroom]
    rfl
  · rw [Npm.read, parse_deepLock_of_le (Nat.not_lt.1 hroom), if_neg hroom]
    rfl

theorem ascii_deepLock (n : Nat) : ∀ c ∈ deepLock n, c.toNat < 0x80 ∧ c ≠ '\r' := by
  have hpackages : packagesText.all fun c => decide (c.toNat < 0x80 ∧ c ≠ '\r') := by decide
  intro c hc
  unfold deepLock nestedText at hc
  simp only [List.mem_append, List.mem_replicate, List.mem_singleton] at hc
  rcases hc with hc | (⟨-, rfl⟩ | ⟨-, rfl⟩) | rfl
  · exact of_decide_eq_true (List.all_eq_true.1 hpackages c hc)
  all_goals decide

end Lock

theorem Classification.value_classify_of_le {room room' : Room} {manifest : String}
    {locks : List Lock.File} {knownBad : List KnownBad.Entry} {c : Classification}
    (hmanifest : room.manifest ≤ room'.manifest) (hlock : room.lock ≤ room'.lock)
    (hlocks : ∀ lock ∈ locks, lock.Registered)
    (halike : ∀ lock ∈ locks, lock.ReadAlike room.lock room'.lock)
    (h : (classify room manifest locks knownBad).value = .ok c) :
    (classify room' manifest locks knownBad).value = .ok c := by
  rw [value_classify_eq_ok_iff] at h ⊢
  obtain ⟨m, locked, hm, hlocked, hc⟩ := h
  rw [Lock.value_merge_of_le hlocks hlock halike]
  exact ⟨m, locked, Manifest.parse_of_le hmanifest hm, hlocked, hc⟩

/-- Without declarations there are only the locked versions to take. -/
theorem Classification.value_classify_emptyObject {room : Room} {n : Nat}
    (hroom : room.manifest = n + 1) {file : Lock.File} (hfile : file.Registered)
    (knownBad : List KnownBad.Entry) :
    (classify room "\x7b\x7d" [file] knownBad).value =
      .ok (ofLedger (takeLocks (KnownBad.group knownBad) Table.empty
        (Table.ofList (file.entries room.lock)) .empty)) := by
  have hmerge : (Lock.merge room.lock [file]).value =
      .ok (Table.ofList (file.entries room.lock)) := by
    rw [Lock.value_merge (List.forall_mem_singleton.2 hfile), Lock.entriesOf,
      List.flatMap_singleton]
  rw [value_classify, hmerge, hroom]
  rfl

end DependencyAudit
