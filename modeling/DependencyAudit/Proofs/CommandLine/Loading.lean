import DependencyAudit.CommandLine.Run
import DependencyAudit.Proofs.AuditValue
import DependencyAudit.Proofs.Settings.Validation

/-!
# Failures of loading that escape

A failure escapes if no command provides for it. Loading settings or a known-bad list fails that way
in a few cases only: a path that cannot be tested or asked for, bytes that are no text, a document
that meets a limit of its reader, a sheet with an ill-formed field. All other failures are explained.
-/

namespace DependencyAudit

namespace Disk

variable {d : Disk} {p : Path}

theorem readText_eq_nullCharacter_iff : d.readText p = .error .nullCharacter ↔ p.hasNull := by
  unfold readText
  split
  · simp_all
  · rename_i hnull
    refine iff_of_false ?_ hnull
    cases d.bytes p with
    | error cause => exact fun h => nomatch h
    | ok content =>
      cases hdecoded : decodeText content <;> simp [Except.mapError, hdecoded]

/-- A file that can be opened has bytes, whether or not they are a text. -/
theorem exists_bytes_of_readText (h : ∀ e, d.readText p ≠ .error (.access e))
    (hnull : ¬ p.hasNull) : ∃ content, d.bytes p = .ok content := by
  cases hbytes : d.bytes p with
  | ok content => exact ⟨content, rfl⟩
  | error cause =>
    refine absurd ?_ (h ⟨cause, p.text⟩)
    unfold readText
    rw [if_neg hnull, hbytes]

theorem pathExists_of_bytes {content : List UInt8} (hnull : ¬ p.hasNull)
    (h : d.bytes p = .ok content) : d.pathExists p = .ok true := by
  unfold pathExists test
  rw [if_neg hnull, h]

theorem not_hasNull_of_pathExists (h : d.pathExists p = .ok true) : ¬ p.hasNull := by
  intro hnull
  unfold pathExists test at h
  rw [if_pos hnull] at h
  exact nomatch h

theorem pathExists_of_readText (hnull : d.readText p ≠ .error .nullCharacter)
    (haccess : ∀ e, d.readText p ≠ .error (.access e)) : d.pathExists p = .ok true := by
  rw [Ne, readText_eq_nullCharacter_iff] at hnull
  obtain ⟨content, hcontent⟩ := exists_bytes_of_readText haccess hnull
  exact pathExists_of_bytes hnull hcontent

end Disk

namespace CommandLine

variable {α β : Type} {d : Disk} {env : Environment}

/-- A result that no command provides for. -/
def Escapes (x : Except Failure α) : Prop := ∃ f, x = .error f ∧ f.explanation? = none

theorem not_escapes_ok (a : α) : ¬ Escapes (.ok a) := fun ⟨_, h, _⟩ => nomatch h

theorem escapes_error_iff (f : Failure) :
    Escapes (.error f : Except Failure α) ↔ f.explanation? = none := by
  constructor
  · rintro ⟨g, hg, hnone⟩
    rwa [Except.error.inj hg]
  · exact fun h => ⟨f, rfl, h⟩

theorem escapes_bind_iff (x : Except Failure α) (g : α → Except Failure β) :
    Escapes (x >>= g) ↔ Escapes x ∨ ∃ a, x = .ok a ∧ Escapes (g a) := by
  cases x with
  | error f =>
    change Escapes (.error f) ↔ _
    simp [escapes_error_iff]
  | ok a =>
    change Escapes (g a) ↔ _
    simp [not_escapes_ok]

theorem escapes_mapError_iff {ε : Type} (f : ε → Failure) (x : Except ε α) :
    Escapes (x.mapError f) ↔ ∃ e, x = .error e ∧ (f e).explanation? = none := by
  unfold Escapes
  simp only [Success.mapError_eq_error_iff]
  constructor
  · rintro ⟨_, ⟨e, he, rfl⟩, hnone⟩
    exact ⟨e, he, hnone⟩
  · rintro ⟨e, he, hnone⟩
    exact ⟨f e, ⟨e, he, rfl⟩, hnone⟩

/-- The path that settings are read from. -/
def settingsSource (env : Environment) (config : Option (Option Path)) : Path :=
  (config.join.or ((env.config.filter (· ≠ "")).map Path.ofText)).getD Settings.defaultPath

/-- How loading settings escapes. -/
inductive SettingsEscape (d : Disk) (env : Environment) (config : Option (Option Path)) : Prop
  | void (h : config = some none)
  | untestable {e : Disk.AccessError} (h : d.pathExists (settingsSource env config) = .error e)
  | undecodable {f : Text.Utf8.Fault}
      (h : d.readText (settingsSource env config) = .error (.undecodable f))
  | limit {text : String} {l : Json.Limit}
      (htext : d.readText (settingsSource env config) = .ok text)
      (h : Json.parse env.rooms.settings text = .error (.limit l))

/-- The settings that a command goes by. -/
def SettingsLoaded (d : Disk) (env : Environment) (config : Option (Option Path))
    (settings : Settings) : Prop :=
  config ≠ some none ∧ Settings.load env.rooms.settings d config.join env.config = .ok settings

theorem explained_of_key? {e : Settings.Error} {key : Settings.Key} (h : e.key? = some key) :
    (Failure.settings e).explanation? ≠ none := by
  cases e <;> cases h <;> simp [Failure.explanation?]

/-- The members of a document are explained when they are refused. -/
theorem explained_of_ofMembers {members : List (String × Json.Value)} {e : Settings.Error}
    (h : Settings.ofMembers members = .error e) : (Failure.settings e).explanation? ≠ none := by
  obtain ⟨key, hkey, -⟩ := Settings.refused_of_ofMembers h
  exact explained_of_key? hkey

theorem escapes_parse_iff (room : Nat) (text : String) :
    (∃ e, Settings.parse room text = .error e ∧ (Failure.settings e).explanation? = none) ↔
      ∃ l, Json.parse room text = .error (.limit l) := by
  unfold Settings.parse
  cases hjson : Json.parse room text with
  | ok document =>
    cases document with
    | object members =>
      refine iff_of_false ?_ fun ⟨_, h⟩ => nomatch h
      rintro ⟨e, he, hnone⟩
      exact explained_of_ofMembers he hnone
    | _ => simp [Failure.explanation?]
  | error e => cases e <;> simp [Failure.explanation?]

theorem load_settings_eq (d : Disk) (env : Environment) (config : Option (Option Path)) :
    Settings.load env.rooms.settings d config.join env.config =
      match d.pathExists (settingsSource env config) with
      | .error e => .error (.untestable e)
      | .ok true =>
        match d.readText (settingsSource env config) with
        | .ok text => Settings.parse env.rooms.settings text
        | .error e => .error (.unreadable e)
      | .ok false =>
        if (config.join.or ((env.config.filter (· ≠ "")).map Path.ofText)).isSome then
          .error (.notFound (settingsSource env config).text)
        else .ok Settings.default := rfl

/-- Settings that are there escape by what they hold. -/
theorem settingsEscape_iff_of_found {config : Option (Option Path)} (hvoid : config ≠ some none)
    (hfound : d.pathExists (settingsSource env config) = .ok true) :
    SettingsEscape d env config ↔
      (∃ f, d.readText (settingsSource env config) = .error (.undecodable f)) ∨
        ∃ text, d.readText (settingsSource env config) = .ok text ∧
          ∃ l, Json.parse env.rooms.settings text = .error (.limit l) := by
  constructor
  · rintro (h | h | h | ⟨htext, h⟩)
    · exact absurd h hvoid
    · exact nomatch hfound.symm.trans h
    · exact .inl ⟨_, h⟩
    · exact .inr ⟨_, htext, _, h⟩
  · rintro (⟨f, h⟩ | ⟨text, htext, l, h⟩)
    · exact .undecodable h
    · exact .limit htext h

theorem not_settingsEscape_of_missing {config : Option (Option Path)} (hvoid : config ≠ some none)
    (hmissing : d.pathExists (settingsSource env config) = .ok false) :
    ¬ SettingsEscape d env config := by
  -- what is read, be it a text or not, is there
  have hthere : d.readText (settingsSource env config) ≠ .error .nullCharacter →
      (∀ e, d.readText (settingsSource env config) ≠ .error (.access e)) → False :=
    fun hnull haccess => nomatch hmissing.symm.trans (Disk.pathExists_of_readText hnull haccess)
  rintro (h | h | h | ⟨h, -⟩)
  · exact hvoid h
  · exact nomatch hmissing.symm.trans h
  · exact hthere (by simp [h]) (by simp [h])
  · exact hthere (by simp [h]) (by simp [h])

theorem escapes_load_settings_iff (d : Disk) (env : Environment) {config : Option (Option Path)}
    (hvoid : config ≠ some none) :
    (∃ e, Settings.load env.rooms.settings d config.join env.config = .error e ∧
      (Failure.settings e).explanation? = none) ↔ SettingsEscape d env config := by
  rw [load_settings_eq]
  cases hexists : d.pathExists (settingsSource env config) with
  | error e => exact iff_of_true ⟨_, rfl, rfl⟩ (.untestable hexists)
  | ok found =>
    cases found with
    | true =>
      rw [settingsEscape_iff_of_found hvoid hexists]
      cases htext : d.readText (settingsSource env config) with
      | ok text => simpa using escapes_parse_iff env.rooms.settings text
      | error e =>
        cases e with
        | access e => simp [Failure.explanation?]
        | nullCharacter =>
          exact absurd (Disk.readText_eq_nullCharacter_iff.1 htext)
            (Disk.not_hasNull_of_pathExists hexists)
        | undecodable f => simp [Failure.explanation?]
    | false =>
      refine iff_of_false ?_ (not_settingsEscape_of_missing hvoid hexists)
      rintro ⟨e, h, hnone⟩
      dsimp only at h
      split at h
      · rw [← Except.error.inj h] at hnone
        exact nomatch hnone
      · exact nomatch h

theorem value_loadSettings (d : Disk) (env : Environment) {config : Option (Option Path)}
    (hvoid : config ≠ some none) : (loadSettings d env config).value =
      (Settings.load env.rooms.settings d config.join env.config).mapError .settings := by
  unfold loadSettings
  split
  · contradiction
  · rfl

theorem escapes_loadSettings_iff (d : Disk) (env : Environment) (config : Option (Option Path)) :
    Escapes (loadSettings d env config).value ↔ SettingsEscape d env config := by
  by_cases hvoid : config = some none
  · subst hvoid
    exact iff_of_true ⟨_, rfl, rfl⟩ (.void rfl)
  · rw [value_loadSettings d env hvoid, escapes_mapError_iff, escapes_load_settings_iff d env hvoid]

theorem value_loadSettings_eq_ok_iff (d : Disk) (env : Environment)
    (config : Option (Option Path)) (settings : Settings) :
    (loadSettings d env config).value = .ok settings ↔ SettingsLoaded d env config settings := by
  unfold SettingsLoaded
  by_cases hvoid : config = some none
  · subst hvoid
    exact iff_of_false (fun h => nomatch h) fun h => h.1 rfl
  · rw [value_loadSettings d env hvoid, Success.mapError_eq_ok_iff]
    exact (and_iff_right hvoid).symm

theorem registered_lockNames (settings : Settings) : Scan.Registered settings.lockNames :=
  Scan.registered_iff_exists_formats.2 ⟨_, rfl⟩

/-- How loading a known-bad list escapes. -/
inductive ListEscape (room : Nat) (d : Disk) (path : Path) : Prop
  | nullCharacter (h : path.hasNull)
  | undecodable {f : Text.Utf8.Fault} (h : d.readText path = .error (.undecodable f))
  | field {text : String} {f : Csv.Fault} (htext : d.readText path = .ok text)
      (hcsv : path.isCsv) (h : KnownBad.Sheet.parse text = .error (.csv f))
  | limit {text : String} {l : Json.Limit} (htext : d.readText path = .ok text)
      (hcsv : ¬ path.isCsv) (h : Json.parse room text = .error (.limit l))

/-- The entries of a list that was given. -/
def ListLoaded (room : Nat) (d : Disk) (path? : Option Path) (entries : List KnownBad.Entry) :
    Prop :=
  ∃ path, path? = some path ∧ (KnownBad.load room d path).value = .ok entries

theorem value_readSheet (path : Path) (text : String) :
    (KnownBad.readSheet path text).value =
      (KnownBad.Sheet.entries <$> KnownBad.Sheet.parse text).mapError .sheet := by
  unfold KnownBad.readSheet
  cases KnownBad.Sheet.parse text with
  | error e => rfl
  | ok sheet =>
    simp only [Except.mapError, Audit.liftExcept_ok_bind, Audit.value_bind, Audit.value_forIn_note]
    rfl

theorem value_load (room : Nat) (d : Disk) (path : Path) :
    (KnownBad.load room d path).value = KnownBad.readFile d path >>= fun text =>
      if path.isCsv then (KnownBad.Sheet.entries <$> KnownBad.Sheet.parse text).mapError .sheet
      else (KnownBad.Document.parse room text).mapError .document := by
  unfold KnownBad.load
  simp only [Audit.value_bind, Audit.value_liftExcept]
  congr 1
  funext text
  by_cases hcsv : path.isCsv
  · rw [if_pos hcsv, if_pos hcsv, Audit.value_bind, value_readSheet]
    cases (KnownBad.Sheet.entries <$> KnownBad.Sheet.parse text).mapError KnownBad.Error.sheet <;> rfl
  · rw [if_neg hcsv, if_neg hcsv, Audit.value_bind]
    cases (KnownBad.Document.parse room text).mapError KnownBad.Error.document <;> rfl

theorem escapes_readSheet_iff (text : String) :
    Escapes (((KnownBad.Sheet.entries <$> KnownBad.Sheet.parse text).mapError
      KnownBad.Error.sheet).mapError Failure.knownBad) ↔
      ∃ f, KnownBad.Sheet.parse text = .error (.csv f) := by
  cases KnownBad.Sheet.parse text with
  | ok sheet => exact iff_of_false (not_escapes_ok _) fun ⟨_, h⟩ => nomatch h
  | error e =>
    refine (escapes_error_iff _).trans ?_
    cases e <;> simp [Failure.explanation?]

theorem escapes_readDocument_iff (room : Nat) (text : String) :
    Escapes (((KnownBad.Document.parse room text).mapError KnownBad.Error.document).mapError
      Failure.knownBad) ↔ ∃ l, Json.parse room text = .error (.limit l) := by
  unfold KnownBad.Document.parse
  cases hjson : Json.parse room text with
  | ok document =>
    refine iff_of_false ?_ fun ⟨_, h⟩ => nomatch h
    dsimp only
    cases KnownBad.Document.entries? document with
    | some entries => exact not_escapes_ok _
    | none => exact fun h => nomatch (escapes_error_iff _).1 h
  | error e =>
    cases e with
    | malformed e =>
      exact iff_of_false (fun h => nomatch (escapes_error_iff _).1 h) fun ⟨_, h⟩ => nomatch h
    | limit l => exact iff_of_true ⟨_, rfl, rfl⟩ ⟨l, rfl⟩

theorem ListEscape.of_text {room : Nat} {d : Disk} {path : Path} {text : String}
    (h : ListEscape room d path)
    (htext : d.readText path = .ok text) :
    (path.isCsv ∧ ∃ f, KnownBad.Sheet.parse text = .error (.csv f)) ∨
      (¬ path.isCsv ∧ ∃ l, Json.parse room text = .error (.limit l)) := by
  rcases h with h | h | ⟨htext', hcsv, h⟩ | ⟨htext', hcsv, h⟩
  · exact nomatch htext.symm.trans (Disk.readText_eq_nullCharacter_iff.2 h)
  · exact nomatch htext.symm.trans h
  · exact .inl ⟨hcsv, _, Except.ok.inj (htext.symm.trans htext') ▸ h⟩
  · exact .inr ⟨hcsv, _, Except.ok.inj (htext.symm.trans htext') ▸ h⟩

theorem escapes_load_iff (room : Nat) (d : Disk) (path : Path) :
    Escapes ((KnownBad.load room d path).value.mapError Failure.knownBad) ↔
      ListEscape room d path := by
  rw [value_load, KnownBad.readFile]
  cases htext : d.readText path with
  | error e =>
    refine (escapes_error_iff _).trans ?_
    cases e with
    | access e =>
      refine iff_of_false (fun h => nomatch h) ?_
      rintro (h | h | ⟨h, -, -⟩ | ⟨h, -, -⟩)
      · exact nomatch htext.symm.trans (Disk.readText_eq_nullCharacter_iff.2 h)
      · exact nomatch htext.symm.trans h
      · exact nomatch htext.symm.trans h
      · exact nomatch htext.symm.trans h
    | nullCharacter =>
      exact iff_of_true rfl (.nullCharacter (Disk.readText_eq_nullCharacter_iff.1 htext))
    | undecodable f => exact iff_of_true rfl (.undecodable htext)
  | ok text =>
    change Escapes ((if path.isCsv then _ else _ : Except KnownBad.Error _).mapError _) ↔ _
    by_cases hcsv : path.isCsv
    · rw [if_pos hcsv, escapes_readSheet_iff]
      refine ⟨fun ⟨f, hf⟩ => .field htext hcsv hf, fun h => ?_⟩
      rcases h.of_text htext with ⟨-, h⟩ | ⟨hnot, -⟩
      · exact h
      · exact absurd hcsv hnot
    · rw [if_neg hcsv, escapes_readDocument_iff]
      refine ⟨fun ⟨l, hl⟩ => .limit htext hcsv hl, fun h => ?_⟩
      rcases h.of_text htext with ⟨hpos, -⟩ | ⟨-, h⟩
      · exact absurd hpos hcsv
      · exact h

theorem escapes_loadList_iff (d : Disk) (env : Environment) (settings : Settings)
    (list : Option Path) :
    Escapes (loadList d env settings list).value ↔
      ∃ path, list.or settings.knownBadList = some path ∧ ListEscape env.rooms.list d path := by
  unfold loadList
  cases hpath : list.or settings.knownBadList with
  | none =>
    exact iff_of_false (fun h => nomatch (escapes_error_iff _).1 h) fun ⟨_, h, _⟩ => nomatch h
  | some path =>
    dsimp only
    rw [Audit.value_adapt, escapes_load_iff]
    simp

theorem value_loadList_eq_ok_iff (d : Disk) (env : Environment) (settings : Settings)
    (list : Option Path) (entries : List KnownBad.Entry) : (loadList d env settings list).value = .ok entries ↔
      ListLoaded env.rooms.list d (list.or settings.knownBadList) entries := by
  unfold loadList ListLoaded
  cases hpath : list.or settings.knownBadList with
  | none => exact iff_of_false (fun h => nomatch h) fun ⟨_, h, _⟩ => nomatch h
  | some path =>
    dsimp only
    rw [Audit.value_adapt, Success.mapError_eq_ok_iff]
    simp

end CommandLine
end DependencyAudit
