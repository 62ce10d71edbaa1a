import DependencyAudit.Proofs.Lock.YarnLines
import DependencyAudit.Proofs.TableOfList
import DependencyAudit.Proofs.Text.Lines

/-!
# The blocks of yarn.lock

A file is a row of sections: blocks of packages, and stray lines that start no block, each with lines
below it. Between two sections no version is still to come, so each block adds its own version and
nothing else does, by induction on the sections.
-/

namespace DependencyAudit.Lock.Yarn

open Text

/-- A header, its version line and what stands below each of the two. Versions below the first are
passed over. -/
structure Block where
  name : List Char
  header : List Char
  headerLine : HeaderLine name header
  before : List (List Char)
  inner_before : ∀ l ∈ before, Inner l ∧ ∀ v, ¬ VersionLine v l
  version : List Char
  versionText : List Char
  versionLine : VersionLine version versionText
  after : List (List Char)
  inner_after : ∀ l ∈ after, Inner l

/-- A line that is not indented and starts no block, with what stands below it. -/
structure Stray where
  line : List Char
  unindented : Unindented line
  not_header : ∀ name, ¬ HeaderLine name line
  after : List (List Char)
  inner_after : ∀ l ∈ after, Inner l

inductive Section where
  | block (b : Block)
  | stray (s : Stray)

def Section.lines : Section → List (List Char)
  | block b => b.header :: b.before ++ b.versionText :: b.after
  | stray s => s.line :: s.after

def Section.entry? : Section → Option (String × String)
  | block b => some (String.ofList b.name, String.ofList b.version)
  | stray _ => none

/-- Takes lines one after the other. -/
def State.run (s : State) (ls : List (List Char)) : State := (ls.map classify).foldl State.step s

@[simp] theorem State.run_cons (s : State) (l : List Char) (ls : List (List Char)) :
    s.run (l :: ls) = (s.step (classify l)).run ls := rfl

theorem State.run_append (s : State) (ls ms : List (List Char)) :
    s.run (ls ++ ms) = (s.run ls).run ms := by
  simp [State.run]

theorem State.step_inner {l : List Char} (h : Inner l) (hversion : ∀ v, ¬ VersionLine v l)
    (s : State) : s.step (classify l) = s := by
  cases hline : classify l with
  | header found => exact absurd hline (classify_ne_header h found)
  | version v => exact absurd (classify_eq_version_iff.1 hline) (hversion v)
  | other => rfl

theorem State.step_inner_none {l : List Char} (h : Inner l) (t : Table String String) :
    State.step ⟨t, none⟩ (classify l) = ⟨t, none⟩ := by
  cases hline : classify l with
  | header found => exact absurd hline (classify_ne_header h found)
  | version v => rfl
  | other => rfl

theorem State.step_stray {l : List Char} (h : Unindented l) (hheader : ∀ name, ¬ HeaderLine name l)
    (t : Table String String) : State.step ⟨t, none⟩ (classify l) = ⟨t, none⟩ := by
  cases hline : classify l with
  | header found =>
    cases found with
    | none => rfl
    | some name => exact absurd (classify_eq_header_iff.1 hline) (hheader name)
  | version v => exact absurd hline (classify_ne_version h)
  | other => rfl

theorem State.run_inner {ls : List (List Char)} (h : ∀ l ∈ ls, Inner l ∧ ∀ v, ¬ VersionLine v l)
    (s : State) : s.run ls = s := by
  induction ls with
  | nil => rfl
  | cons l ls ih =>
    obtain ⟨⟨hl, hversion⟩, hls⟩ := List.forall_mem_cons.1 h
    rw [run_cons, step_inner hl hversion, ih hls]

theorem State.run_inner_none {ls : List (List Char)} (h : ∀ l ∈ ls, Inner l)
    (t : Table String String) : State.run ⟨t, none⟩ ls = ⟨t, none⟩ := by
  induction ls with
  | nil => rfl
  | cons l ls ih =>
    obtain ⟨hl, hls⟩ := List.forall_mem_cons.1 h
    rw [run_cons, step_inner_none hl, ih hls]

theorem run_block (b : Block) (t : Table String String) :
    State.run ⟨t, none⟩ (Section.block b).lines =
      ⟨t.insert (String.ofList b.name) (String.ofList b.version), none⟩ := by
  have hheader : State.step ⟨t, none⟩ (classify b.header) = ⟨t, some b.name⟩ := by
    rw [classify_eq_header_iff.2 b.headerLine]
    rfl
  have hversion : State.step ⟨t, some b.name⟩ (classify b.versionText) =
      ⟨t.insert (String.ofList b.name) (String.ofList b.version), none⟩ := by
    rw [classify_eq_version_iff.2 b.versionLine]
    rfl
  rw [Section.lines, List.cons_append, State.run_cons, hheader, State.run_append,
    State.run_inner b.inner_before, State.run_cons, hversion, State.run_inner_none b.inner_after]

theorem run_stray (s : Stray) (t : Table String String) :
    State.run ⟨t, none⟩ (Section.stray s).lines = ⟨t, none⟩ := by
  rw [Section.lines, State.run_cons, State.step_stray s.unindented s.not_header,
    State.run_inner_none s.inner_after]

/-- A section adds its entry, if it has one, and leaves no version to come. -/
theorem run_section (s : Section) (t : Table String String) :
    State.run ⟨t, none⟩ s.lines = ⟨t.insertAll s.entry?.toList, none⟩ := by
  cases s with
  | block b => exact run_block b t
  | stray s => exact run_stray s t

theorem run_sections (ss : List Section) (t : Table String String) :
    State.run ⟨t, none⟩ (ss.flatMap Section.lines) =
      ⟨t.insertAll (ss.filterMap Section.entry?), none⟩ := by
  induction ss generalizing t with
  | nil => rfl
  | cons s ss ih =>
    have hentries : (s :: ss).filterMap Section.entry? =
        s.entry?.toList ++ ss.filterMap Section.entry? := by
      rw [List.filterMap_cons]
      cases s.entry? <;> rfl
    rw [List.flatMap_cons, State.run_append, run_section, ih, hentries, Table.insertAll_append]

/-- A file of sections is read as the versions of its blocks, in order. -/
theorem read_sections (ss : List Section) (text : String)
    (h : WrittenLines (ss.flatMap Section.lines) text.toList) :
    Table.Collects (ss.filterMap Section.entry?) (read text) := by
  obtain ⟨last, hlines, hlast⟩ := h.exists_append
  have hrest : ∀ l ∈ last, Inner l ∧ ∀ v, ¬ VersionLine v l := by
    intro l hl
    rw [hlast l hl]
    refine ⟨.inl allBlank_nil, fun v hv => ?_⟩
    obtain ⟨c, rest, hnil, -⟩ := hv.exists_cons
    contradiction
  have hrun : State.run .start (lines text.toList) =
      ⟨Table.ofList (ss.filterMap Section.entry?), none⟩ := by
    have hall := run_sections ss Table.empty
    rwa [hlines, State.run_append, State.run_inner hrest] at hall
  have hread : read text = Table.ofList (ss.filterMap Section.entry?) :=
    congrArg State.versions hrun
  rw [hread]
  exact Table.collects_ofList _

def nestedLine : List Char := "  resolved \"x\"".toList

def scopedBlock : Block where
  name := "@scope/pkg".toList
  header := "\"@scope/pkg@npm:^1.0.0, @scope/pkg@1\":".toList
  headerLine := classify_eq_header_iff.1 rfl
  before := [nestedLine, "# note".toList]
  inner_before := by
    refine List.forall_mem_cons.2 ⟨⟨.inr (.inr ⟨' ', rfl, rfl⟩), fun v hv => ?_⟩,
      List.forall_mem_singleton.2 ⟨.inr (.inl rfl), fun v hv => ?_⟩⟩
    · exact nomatch (classify_eq_version_iff.2 hv : Line.other = .version v)
    · exact nomatch (classify_eq_version_iff.2 hv : Line.other = .version v)
  version := "1.2.3-rc.1".toList
  versionText := "  version: 1.2.3-rc.1 ".toList
  versionLine := classify_eq_version_iff.1 rfl
  after := ["  version \"9.9.9\"".toList]
  inner_after := List.forall_mem_singleton.2 (.inr (.inr ⟨' ', rfl, rfl⟩))

def strayLine : Stray where
  line := "weird-line".toList
  unindented := forall_head?_cons (by decide) _
  not_header := fun name hname =>
    nomatch (classify_eq_header_iff.2 hname : Line.header none = .header (some name))
  after := ["  version \"9.9.9\"".toList]
  inner_after := List.forall_mem_singleton.2 (.inr (.inr ⟨' ', rfl, rfl⟩))

def laterBlock : Block where
  name := "@scope/pkg".toList
  header := "@scope/pkg@^2.0.0:".toList
  headerLine := classify_eq_header_iff.1 rfl
  before := []
  inner_before := fun _ hl => absurd hl List.not_mem_nil
  version := "2.0.0".toList
  versionText := "\tversion \"2.0.0\"".toList
  versionLine := classify_eq_version_iff.1 rfl
  after := [[]]
  inner_after := List.forall_mem_singleton.2 (.inl allBlank_nil)

def sampleSections : List Section := [.block scopedBlock, .stray strayLine, .block laterBlock]

def sampleText : String :=
  String.ofList (['\r', '\n'].intercalate (sampleSections.flatMap Section.lines))

theorem read_sampleSections :
    WrittenLines (sampleSections.flatMap Section.lines) sampleText.toList ∧
      Table.Collects [("@scope/pkg", "1.2.3-rc.1"), ("@scope/pkg", "2.0.0")] (read sampleText) := by
  have hlines : ∀ l ∈ sampleSections.flatMap Section.lines, OneLine l :=
    oneLine_of_flatten (by decide +kernel)
  have hwritten : WrittenLines (sampleSections.flatMap Section.lines) sampleText.toList := by
    rw [sampleText, String.toList_ofList]
    exact writtenLines_intercalate .returnFeed (by decide) hlines
  exact ⟨hwritten, read_sections sampleSections sampleText hwritten⟩

end DependencyAudit.Lock.Yarn
