import Mathlib.Data.List.Basic
import DependencyAudit.CommandLine.Command
import DependencyAudit.Proofs.Success

/-!
# The words of a check

A check of a manifest with its lock files can be asked for in words, a switch before each lock file,
before the settings and before the list. As long as no value starts with a dash, these words are read
as that check. A switch with all its values is one step of the reading, by induction on the values.
-/

namespace DependencyAudit.CommandLine

/-- A word that is taken for an argument wherever it stands. -/
def Plain (word : String) : Prop := word.toList.head? ≠ some '-'

theorem Plain.ne_dashes {word : String} (h : Plain word) : word ≠ "--" := by
  rintro rfl
  exact h rfl

/-- A switch repeated before each of its values. -/
def switchWords (spelling : String) (values : List String) : List String :=
  values.flatMap fun value => [spelling, value]

/-- The lock files, the settings and the list of a check. -/
def inputWords (locks : List String) (config list : Option String) : List String :=
  switchWords "--lock" locks ++
    (switchWords "--config" config.toList ++ switchWords "--list" list.toList)

/-- The words that ask for a check. -/
def checkWords (level : Option String) (manifest : String) (locks : List String)
    (config list : Option String) : List String :=
  switchWords "--log-level" level.toList ++ "check" :: manifest :: inputWords locks config list

section

variable {switches : List Switch} {words : List String} {tokens : List Token} {t : Token}

theorem ofWords_cons {word : String} (hne : word ≠ "--") (hword : Token.ofWord switches word = .ok t)
    (hwords : Token.ofWords switches words = .ok tokens) :
    Token.ofWords switches (word :: words) = .ok (t :: tokens) := by
  rw [Token.ofWords, if_neg hne, hword, hwords]
  rfl

theorem ofWord_of_plain {word : String} (h : Plain word) :
    Token.ofWord switches word = .ok (.argument word) := by
  have hargument : (decide (word.toList.head? ≠ some '-') || decide (word = "-")) = true := by
    rw [Bool.or_eq_true, decide_eq_true_eq]
    exact .inl h
  unfold Token.ofWord
  exact if_pos hargument

theorem ofWords_cons_of_plain {word : String} (h : Plain word)
    (hwords : Token.ofWords switches words = .ok tokens) :
    Token.ofWords switches (word :: words) = .ok (.argument word :: tokens) :=
  ofWords_cons h.ne_dashes (ofWord_of_plain h) hwords

def switchTokens (t : Token) (values : List String) : List Token :=
  values.flatMap fun value => [t, .argument value]

theorem ofWords_switchWords {spelling : String} {values : List String} (hne : spelling ≠ "--")
    (hspelling : Token.ofWord switches spelling = .ok t) (hvalues : ∀ value ∈ values, Plain value)
    (hwords : Token.ofWords switches words = .ok tokens) :
    Token.ofWords switches (switchWords spelling values ++ words) =
      .ok (switchTokens t values ++ tokens) := by
  induction values with
  | nil => exact hwords
  | cons value values ih =>
    rw [List.forall_mem_cons] at hvalues
    exact ofWords_cons hne hspelling (ofWords_cons_of_plain hvalues.1 (ih hvalues.2))

theorem map_text_switchTokens (t : Token) (values : List String) :
    (switchTokens t values).map Token.text = switchWords t.text values := by
  induction values with
  | nil => rfl
  | cons value values ih =>
    change t.text :: value :: (switchTokens t values).map Token.text = _
    rw [ih]
    rfl

end

theorem dashes_not_mem_switchTokens (spelling : String) (s : Switch) (values : List String) :
    Token.dashes ∉ switchTokens (.switch spelling s none) values := by
  intro h
  obtain ⟨value, -, h⟩ := List.mem_flatMap.1 h
  simp at h

def Reading.addValues (r : Reading) (s : Switch) (values : List String) : Reading :=
  { r with switches := r.switches ++ values.map fun value => (s, some value) }

theorem addSwitch_of_plain (r : Reading) (s : Switch) {value : String} (h : Plain value) :
    r.addSwitch s value = r.addValues s [value] := by
  unfold Reading.addSwitch Reading.addValues
  rw [if_neg h.ne_dashes]
  rfl

theorem addValues_cons (r : Reading) (s : Switch) (value : String) (values : List String) :
    (r.addValues s [value]).addValues s values = r.addValues s (value :: values) := by
  simp [Reading.addValues]

section

variable {program spelling : String} {s : Switch} (hs : s.takesValue) {rest : List Token}

include hs

theorem readCommand_switchTokens (hasOperand : Bool) (r : Reading) {values : List String}
    (h : ∀ value ∈ values, Plain value) :
    readCommand program hasOperand r (switchTokens (.switch spelling s none) values ++ rest) =
      readCommand program hasOperand (r.addValues s values) rest := by
  induction values generalizing r with
  | nil => simp [switchTokens, Reading.addValues]
  | cons value values ih =>
    rw [List.forall_mem_cons] at h
    have hstep : readCommand program hasOperand r
        (.switch spelling s none :: .argument value ::
          (switchTokens (.switch spelling s none) values ++ rest)) =
        readCommand program hasOperand (r.addSwitch s value)
          (switchTokens (.switch spelling s none) values ++ rest) := by
      rw [readCommand, if_pos hs]
    rw [← addValues_cons, ← addSwitch_of_plain r s h.1]
    exact hstep.trans (ih _ h.2)

theorem readGeneral_switchTokens (r : Reading) {values : List String}
    (h : ∀ value ∈ values, Plain value) :
    readGeneral program r (switchTokens (.switch spelling s none) values ++ rest) =
      readGeneral program (r.addValues s values) rest := by
  induction values generalizing r with
  | nil => simp [switchTokens, Reading.addValues]
  | cons value values ih =>
    rw [List.forall_mem_cons] at h
    have hstep : readGeneral program r
        (.switch spelling s none :: .argument value ::
          (switchTokens (.switch spelling s none) values ++ rest)) =
        readGeneral program (r.addSwitch s value)
          (switchTokens (.switch spelling s none) values ++ rest) := by
      rw [readGeneral, if_pos hs]
    rw [← addValues_cons, ← addSwitch_of_plain r s h.1]
    exact hstep.trans (ih _ h.2)

end

/-- The first argument is the operand, unless two dashes follow it. -/
theorem readCommand_operand (program : String) {r : Reading} (hr : r.operand = none) (word : String)
    {rest : List Token} (hrest : rest.head? ≠ some .dashes) :
    readCommand program true r (.argument word :: rest) =
      readCommand program true { r with operand := some word } rest := by
  have htaken : (true && r.operand.isNone) = true := by rw [hr]; rfl
  rw [readCommand.eq_def]
  split <;> simp_all

theorem values_addValues (r : Reading) (s s' : Switch) (values : List String) :
    (r.addValues s values).values s' = r.values s' ++ if s = s' then values.map some else [] := by
  unfold Reading.values Reading.addValues
  rw [List.filter_append, List.map_append, List.filter_map]
  by_cases h : s = s'
  · simp [h, Function.comp_def]
  · simp [h, Function.comp_def]

/-- The tokens of the lock files, the settings and the list, each switch as it is read. -/
def inputTokens (lock config list : Token) (locks : List String) (config? list? : Option String) :
    List Token :=
  switchTokens lock locks ++ (switchTokens config config?.toList ++ switchTokens list list?.toList)

variable {level config list : Option String} {manifest : String} {locks : List String}

theorem ofWords_inputWords {switches : List Switch} {t t' t'' : Token}
    (hlock : Token.ofWord switches "--lock" = .ok t)
    (hconfig : Token.ofWord switches "--config" = .ok t')
    (hlist : Token.ofWord switches "--list" = .ok t'')
    (hvalues : ∀ value ∈ locks ++ (config.toList ++ list.toList), Plain value) :
    Token.ofWords switches (inputWords locks config list) =
      .ok (inputTokens t t' t'' locks config list) := by
  simp only [List.forall_mem_append] at hvalues
  have hlists := ofWords_switchWords (by decide) hlist hvalues.2.2
    (rfl : Token.ofWords switches [] = .ok [])
  rw [List.append_nil, List.append_nil] at hlists
  exact ofWords_switchWords (by decide) hlock hvalues.1
    (ofWords_switchWords (by decide) hconfig hvalues.2.1 hlists)

theorem map_text_inputTokens {t t' t'' : Token} (h : t.text = "--lock") (h' : t'.text = "--config")
    (h'' : t''.text = "--list") :
    (inputTokens t t' t'' locks config list).map Token.text = inputWords locks config list := by
  simp only [inputTokens, List.map_append, map_text_switchTokens, h, h', h'']
  rfl

/-- What the words of a check say after its name. -/
def checkReading (manifest : String) (locks : List String) (config list : Option String) : Reading :=
  (((⟨[], some manifest, []⟩ : Reading).addValues .lock locks).addValues .config
    config.toList).addValues .list list.toList

theorem readCommand_check (program : String)
    (hvalues : ∀ value ∈ locks ++ (config.toList ++ list.toList), Plain value) :
    readCommand program true .empty (.argument manifest ::
      inputTokens (.switch "--lock" .lock none) (.switch "--config" .config none)
        (.switch "--list" .list none) locks config list) =
      .ok (checkReading manifest locks config list) := by
  simp only [List.forall_mem_append] at hvalues
  have hnot : (inputTokens (.switch "--lock" .lock none) (.switch "--config" .config none)
      (.switch "--list" .list none) locks config list).head? ≠ some .dashes := by
    intro h
    have hmem := List.mem_of_mem_head? h
    simp only [inputTokens, List.mem_append, dashes_not_mem_switchTokens, or_self] at hmem
  rw [readCommand_operand program rfl manifest hnot, inputTokens,
    ← List.append_nil (switchTokens (.switch "--list" .list none) list.toList),
    readCommand_switchTokens rfl true _ hvalues.1, readCommand_switchTokens rfl true _ hvalues.2.1,
    readCommand_switchTokens rfl true _ hvalues.2.2]
  rfl

theorem commandReading_check (hmanifest : Plain manifest)
    (hvalues : ∀ value ∈ locks ++ (config.toList ++ list.toList), Plain value) :
    commandReading "check" [.help, .lock, .config, .list, .warnOnly] (some "manifest")
      (manifest :: inputWords locks config list) = .ok (checkReading manifest locks config list) := by
  have htokens : Token.ofWords [.help, .lock, .config, .list, .warnOnly]
      (manifest :: inputWords locks config list) = .ok (.argument manifest ::
        inputTokens (.switch "--lock" .lock none) (.switch "--config" .config none)
          (.switch "--list" .list none) locks config list) :=
    ofWords_cons_of_plain hmanifest (ofWords_inputWords rfl rfl rfl hvalues)
  unfold commandReading tokens
  rw [htokens]
  change (readCommand _ true .empty _ >>= _) = _
  rw [readCommand_check _ hvalues]
  rfl

theorem values_checkReading (s : Switch) : (checkReading manifest locks config list).values s =
    (if .lock = s then locks.map some else []) ++
      (if .config = s then config.toList.map some else []) ++
        if .list = s then list.toList.map some else [] := by
  unfold checkReading
  rw [values_addValues, values_addValues, values_addValues]
  rfl

theorem command_check (hmanifest : Plain manifest)
    (hvalues : ∀ value ∈ locks ++ (config.toList ++ list.toList), Plain value) :
    command "check" (manifest :: inputWords locks config list) =
      .ok (.check (Path.ofText manifest) (locks.map fun lock => some (Path.ofText lock))
        (config.map fun path => some (Path.ofText path)) (list.map Path.ofText) false, []) := by
  have hlocks : (checkReading manifest locks config list).paths .lock =
      locks.map fun lock => some (Path.ofText lock) := by
    rw [Reading.paths, values_checkReading]
    simp
  have hconfig : (checkReading manifest locks config list).path? .config =
      config.map fun path => some (Path.ofText path) := by
    rw [Reading.path?, Reading.paths, values_checkReading]
    cases config <;> rfl
  have hlist : ((checkReading manifest locks config list).path? .list).join =
      list.map Path.ofText := by
    rw [Reading.path?, Reading.paths, values_checkReading]
    cases list <;> rfl
  have hwarn : (checkReading manifest locks config list).has .warnOnly = false := by
    rw [Reading.has, values_checkReading]
    rfl
  unfold command
  rw [commandReading_check hmanifest hvalues]
  change Except.ok (Command.check _ _ _ _ _, _) = _
  rw [hlocks, hconfig, hlist, hwarn]
  rfl

/-- The words of a check are read as that check. -/
theorem parse_checkWords (hmanifest : Plain manifest)
    (hvalues : ∀ value ∈ locks ++ (config.toList ++ list.toList), Plain value)
    (hlevel : ∀ value ∈ level.toList, Plain value) :
    parse (checkWords level manifest locks config list) =
      .ok ⟨level, .check (Path.ofText manifest) (locks.map fun lock => some (Path.ofText lock))
        (config.map fun path => some (Path.ofText path)) (list.map Path.ofText) false⟩ := by
  have hinput : Token.ofWords [.help, .logLevel] (inputWords locks config list) =
      .ok (inputTokens (.unknownSwitch "--lock") (.unknownSwitch "--config")
        (.unknownSwitch "--list") locks config list) := ofWords_inputWords rfl rfl rfl hvalues
  have hcheck : Plain "check" := by unfold Plain; decide
  have htokens : Token.ofWords [.help, .logLevel] (checkWords level manifest locks config list) =
      .ok (switchTokens (.switch "--log-level" .logLevel none) level.toList ++
        .argument "check" :: .argument manifest :: inputTokens (.unknownSwitch "--lock")
          (.unknownSwitch "--config") (.unknownSwitch "--list") locks config list) :=
    ofWords_switchWords (by decide) rfl hlevel
      (ofWords_cons_of_plain hcheck (ofWords_cons_of_plain hmanifest hinput))
  have hgeneral : readGeneral programName .empty
      (switchTokens (.switch "--log-level" .logLevel none) level.toList ++
        .argument "check" :: .argument manifest :: inputTokens (.unknownSwitch "--lock")
          (.unknownSwitch "--config") (.unknownSwitch "--list") locks config list) =
      .ok (Reading.empty.addValues .logLevel level.toList,
        "check" :: manifest :: inputWords locks config list) := by
    rw [readGeneral_switchTokens rfl _ hlevel, readGeneral, List.map_cons,
      map_text_inputTokens rfl rfl rfl]
    rfl
  have hlast : ((Reading.empty.addValues .logLevel level.toList).last? .logLevel).join = level := by
    rw [Reading.last?, values_addValues]
    cases level <;> rfl
  unfold parse tokens
  rw [htokens]
  change (readGeneral programName .empty _ >>= _) = _
  rw [hgeneral]
  change (command "check" _ >>= _) = _
  rw [command_check hmanifest hvalues]
  change Except.ok (Invocation.mk ((Reading.empty.addValues .logLevel level.toList).last?
    .logLevel).join _) = _
  rw [hlast]

end DependencyAudit.CommandLine
