import DependencyAudit.Proofs.Lock.PnpmKeys
import DependencyAudit.Proofs.Lock.YarnBlocks
import DependencyAudit.Proofs.Text.Layout

/-!
# The layout of line-based lock files

Both readers that go line by line pass over blank lines and the blanks at the ends of lines, so they
read no more of a file than what it says line by line.
-/

namespace DependencyAudit.Lock

open Text

namespace Yarn

theorem classify_trimRight (line : List Char) : classify (trimRight line) = classify line := by
  rw [classify_eq, trimRight_trimRight, ← classify_eq]

theorem classify_of_trimRight_eq_nil {line : List Char} (h : trimRight line = []) :
    classify line = .other := by
  rw [← classify_trimRight, h]
  rfl

theorem State.run_bare (s : State) (ls : List (List Char)) : s.run (bare ls) = s.run ls := by
  induction ls generalizing s with
  | nil => rfl
  | cons l ls ih =>
    rw [bare_cons]
    split
    · rename_i hempty
      rw [ih, run_cons, classify_of_trimRight_eq_nil hempty]
      rfl
    · rw [run_cons, classify_trimRight, ih, run_cons]

theorem read_eq_of_content {text : String} :
    read text = (State.run .start (content text.toList)).versions := by
  rw [← bare_lines, State.run_bare]
  rfl

end Yarn

namespace Pnpm

variable {line name version : List Char}

theorem KeyEnd.append_blanks {ending after : List Char} (h : KeyEnd ending)
    (hafter : AllBlank after) : KeyEnd (ending ++ after) := by
  obtain ⟨hpeers, hclosing, htrail⟩ := h
  simp only [List.append_assoc, List.cons_append]
  exact .intro hpeers hclosing (List.forall_mem_append.2 ⟨htrail, hafter⟩)

/-- The colon of a key is the last that is not blank. -/
theorem KeyEnd.exists_colon {ending : List Char} (h : KeyEnd ending) :
    ∃ before trail, AllBlank trail ∧ ending = before ++ ':' :: trail ∧
      KeyEnd (before ++ [':']) := by
  obtain ⟨hpeers, hclosing, htrail⟩ := h
  rename_i peers closing trail
  refine ⟨peersText peers ++ closing, trail, htrail, by simp, ?_⟩
  rw [List.append_assoc]
  exact .intro hpeers hclosing allBlank_nil

theorem keyLine_trimRight_iff : KeyLine name version (trimRight line) ↔
    KeyLine name version line := by
  constructor
  · obtain ⟨after, hafter, hline⟩ := exists_trimRight_append line
    generalize trimRight line = text at hline
    rintro ⟨hindent, hindented, hopening, hslash, hname, hversion, hending⟩
    have hlonger := hending.append_blanks hafter
    rw [hline]
    simp only [List.append_assoc, List.cons_append]
    exact .intro hindent hindented hopening hslash hname hversion hlonger
  · rintro ⟨hindent, hindented, hopening, hslash, hname, hversion, hending⟩
    rename_i indent opening slash ending
    obtain ⟨before, trail, htrail, rfl, hshorter⟩ := hending.exists_colon
    -- nothing behind the colon is left
    have hassoc : ∀ rest : List Char,
        indent ++ (opening ++ (slash ++ (name ++ '@' :: (version ++ (before ++ ':' :: rest))))) =
          indent ++ opening ++ slash ++ name ++ '@' :: version ++ before ++ ':' :: rest := by
      simp
    rw [hassoc, trimRight_append_cons (by decide), trimRight_of_allBlank htrail, ← hassoc]
    exact .intro hindent hindented hopening hslash hname hversion hshorter

theorem key?_trimRight (line : List Char) : key? (trimRight line) = key? line := by
  apply Option.ext
  rintro ⟨name, version⟩
  rw [← String.ofList_toList (s := name), ← String.ofList_toList (s := version),
    key?_eq_some_iff, key?_eq_some_iff, keyLine_trimRight_iff]

theorem filterMap_key?_bare (ls : List (List Char)) :
    (bare ls).filterMap key? = ls.filterMap key? := by
  induction ls with
  | nil => rfl
  | cons l ls ih =>
    rw [bare_cons]
    split
    · rename_i hempty
      have hkey : key? l = none := by
        rw [← key?_trimRight, hempty]
        rfl
      rw [ih, List.filterMap_cons, hkey]
    · rw [List.filterMap_cons, List.filterMap_cons, key?_trimRight, ih]

theorem read_eq_of_content {text : String} :
    read text = Table.ofList ((content text.toList).filterMap key?) := by
  rw [← bare_lines, filterMap_key?_bare, read]

end Pnpm

/-- Texts that differ in their layout only are read alike. -/
theorem read_relaid {text text' : String}
    (h : Relation.EqvGen Relaid text.toList text'.toList) :
    Yarn.read text' = Yarn.read text ∧ Pnpm.read text' = Pnpm.read text := by
  have hcontent := content_of_eqvGen h
  constructor
  · rw [Yarn.read_eq_of_content, hcontent, ← Yarn.read_eq_of_content]
  · rw [Pnpm.read_eq_of_content, hcontent, ← Pnpm.read_eq_of_content]

def plainText : String := "a@^1.0.0:\n  version \"1.2.3\"\u2028  /b@2.0.0:"

/-- Its last line is ended, every line feed has a return, a blank line stands before the last line
and blanks at the end of the first. -/
def spacedText : String := "a@^1.0.0: \t\r\n  version \"1.2.3\"\u2028\u00a0\r  /b@2.0.0:\r\n"

def spacedHeader : List Char := "a@^1.0.0:".toList

def spacedVersion : List Char := "\r\n  version \"1.2.3\"\u2028".toList

def spacedKey : List Char := "  /b@2.0.0:\r\n".toList

theorem eqvGen_spacedText : Relation.EqvGen Relaid plainText.toList spacedText.toList := by
  have hfeed : Relaid plainText.toList (plainText.toList ++ ['\n']) := .finalFeed _
  have hreturns : Relaid (plainText.toList ++ ['\n'])
      (spacedHeader ++ spacedVersion ++ spacedKey) := by
    have hreturned : withReturns (plainText.toList ++ ['\n']) =
        spacedHeader ++ spacedVersion ++ spacedKey := by decide +kernel
    exact hreturned ▸ .returns _
  have hblank : Relaid (spacedHeader ++ spacedVersion ++ spacedKey)
      (spacedHeader ++ spacedVersion ++ (['\u00a0'] ++ (['\r'] ++ spacedKey))) := by
    have hlast : (spacedHeader ++ spacedVersion).getLast? = some '\u2028' := by decide +kernel
    refine .blankLine _ _ (List.forall_mem_singleton.2 rfl) (.boundary rfl) ?_
    rw [hlast]
    exact forall_head?_cons (P := fun c => isLineBoundary c) rfl []
  have htrailing : Relaid
      (spacedHeader ++ spacedVersion ++ (['\u00a0'] ++ (['\r'] ++ spacedKey)))
      spacedText.toList := by
    have hgap : AllBlank [' ', '\t'] :=
      List.forall_mem_cons.2 ⟨rfl, List.forall_mem_singleton.2 rfl⟩
    have hfirst : spacedVersion.head? = some '\r' := by decide +kernel
    have hspaced : spacedText.toList = spacedHeader ++ ([' ', '\t'] ++
        (spacedVersion ++ (['\u00a0'] ++ (['\r'] ++ spacedKey)))) := by decide +kernel
    rw [hspaced, List.append_assoc]
    refine .trailing _ _ hgap ?_
    rw [List.head?_append, hfirst]
    exact forall_head?_cons (P := fun c => isLineBoundary c) rfl []
  exact .trans _ _ _ (.rel _ _ hfeed) (.trans _ _ _ (.rel _ _ hreturns)
    (.trans _ _ _ (.rel _ _ hblank) (.rel _ _ htrailing)))

theorem read_relaid_spacedText :
    Relation.EqvGen Relaid plainText.toList spacedText.toList ∧
      (Yarn.read spacedText).entries = [("a", "1.2.3")] ∧
      (Pnpm.read spacedText).entries = [("b", "2.0.0")] := by
  obtain ⟨hyarn, hpnpm⟩ := read_relaid eqvGen_spacedText
  rw [hyarn, hpnpm]
  exact ⟨eqvGen_spacedText, by decide +kernel, by decide +kernel⟩

end DependencyAudit.Lock
