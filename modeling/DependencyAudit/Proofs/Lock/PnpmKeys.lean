import Mathlib.Data.Option.Basic
import DependencyAudit.Lock.Pnpm
import DependencyAudit.Proofs.TableOfList
import DependencyAudit.Proofs.Text.Lines
import DependencyAudit.Proofs.Text.Numerals
import DependencyAudit.Proofs.Text.Words

/-!
# The keys of pnpm-lock.yaml

What the reader takes for the key of a package, told by how keys are written. A line is taken for a
key just in case it is written so, and there is only one way to part it into name and version. A file
is read as the keys among its lines, in order.
-/

namespace DependencyAudit.Lock.Pnpm

open Text

/-- A name without its scope, or a scope. -/
structure NamePart (part : List Char) : Prop where
  ne_nil : part ≠ []
  plain : ∀ c ∈ part, c ≠ '@' ∧ c ≠ '/' ∧ c ≠ '\'' ∧ c ≠ '"' ∧ ¬ isBlank c

inductive KeyName : List Char → Prop
  | plain {part : List Char} (h : NamePart part) : KeyName part
  | withScope {scope part : List Char} (hscope : NamePart scope) (h : NamePart part) :
    KeyName ('@' :: (scope ++ '/' :: part))

structure KeyVersion (version : List Char) : Prop where
  digit : ∃ d rest, version = d :: rest ∧ isDigit d
  plain : ∀ c ∈ version, c ≠ '(' ∧ c ≠ ':' ∧ c ≠ '\'' ∧ c ≠ '"' ∧ ¬ isBlank c

/-- A quotation mark that may be left out. -/
def quotes : List (List Char) := [[], ['\''], ['"']]

/-- Groups of peers, each in parentheses. -/
def peersText (peers : List (List Char)) : List Char :=
  peers.flatMap fun peer => '(' :: (peer ++ [')'])

/-- What stands behind the version of a key: its peers, a quotation mark, the colon and blanks. -/
inductive KeyEnd : List Char → Prop
  | intro {peers : List (List Char)} {closing trail : List Char} (hpeers : ∀ p ∈ peers, ':' ∉ p)
      (hclosing : closing ∈ quotes) (htrail : AllBlank trail) :
      KeyEnd (peersText peers ++ (closing ++ ':' :: trail))

/-- An indented line with a name and a version. -/
inductive KeyLine : (name : List Char) → (version : List Char) → (line : List Char) → Prop
  | intro {indent opening slash name version ending : List Char} (hindent : AllBlank indent)
      (hindented : indent ≠ []) (hopening : opening ∈ quotes) (hslash : slash ∈ [[], ['/']])
      (hname : KeyName name) (hversion : KeyVersion version) (hending : KeyEnd ending) :
      KeyLine name version
        (indent ++ (opening ++ (slash ++ (name ++ '@' :: (version ++ ending)))))

variable {line name version part rest s : List Char}

theorem isQuote_iff (c : Char) : isQuote c ↔ c = '\'' ∨ c = '"' := by simp [isQuote]

theorem isNameChar_iff (c : Char) :
    isNameChar c ↔ c ≠ '@' ∧ c ≠ '/' ∧ c ≠ '\'' ∧ c ≠ '"' ∧ ¬ isBlank c := by
  simp [isNameChar, isQuote, and_assoc]

theorem isVersionChar_iff (c : Char) :
    isVersionChar c ↔ c ≠ '(' ∧ c ≠ ':' ∧ c ≠ '\'' ∧ c ≠ '"' ∧ ¬ isBlank c := by
  simp [isVersionChar, isQuote, and_assoc]

theorem dropOptional_of_head {p : Char → Bool} (h : ∀ c ∈ s.head?, ¬ p c) :
    dropOptional p s = s := by
  cases s with
  | nil => rfl
  | cons c s => exact if_neg (h c rfl)

theorem dropOptional_cons {p : Char → Bool} {c : Char} (h : p c) (s : List Char) :
    dropOptional p (c :: s) = s := if_pos h

theorem mem_quotes_iff {mark : List Char} :
    mark ∈ quotes ↔ mark = [] ∨ ∃ q, isQuote q ∧ mark = [q] := by
  simp [quotes, isQuote, or_and_right, exists_or]

theorem dropOptional_quotes_append {mark : List Char} (h : mark ∈ quotes)
    (hrest : ∀ c ∈ rest.head?, ¬ isQuote c) : dropOptional isQuote (mark ++ rest) = rest := by
  rcases mem_quotes_iff.1 h with rfl | ⟨q, hq, rfl⟩
  · exact dropOptional_of_head hrest
  · exact dropOptional_cons hq rest

theorem exists_append_dropOptional (p : Char → Bool) (s : List Char) :
    ∃ mark, (mark = [] ∨ ∃ c, p c ∧ mark = [c]) ∧ s = mark ++ dropOptional p s := by
  cases s with
  | nil => exact ⟨[], .inl rfl, rfl⟩
  | cons c s =>
    by_cases h : p c
    · exact ⟨[c], .inr ⟨c, h, rfl⟩, by simp [dropOptional, h]⟩
    · exact ⟨[], .inl rfl, by simp [dropOptional, h]⟩

theorem part?_eq_some_iff {ending : Char} (hending : ¬ isNameChar ending) :
    part? ending s = some (part, rest) ↔ NamePart part ∧ s = part ++ ending :: rest := by
  constructor
  · intro h
    have hs := (List.takeWhile_append_dropWhile (p := isNameChar) (l := s)).symm
    unfold part? at h
    split at h
    · contradiction
    · rename_i c after hdrop hne
      split at h
      · rename_i hc
        obtain ⟨rfl, rfl⟩ := Prod.mk.inj (Option.some.inj h)
        rw [hdrop, hc] at hs
        refine ⟨⟨hne, fun d hd => ?_⟩, hs⟩
        exact (isNameChar_iff d).1 (List.mem_takeWhile_imp hd)
      · contradiction
    · contradiction
  · rintro ⟨⟨hne, hplain⟩, rfl⟩
    have hchars : ∀ c ∈ part, isNameChar c := fun c hc => (isNameChar_iff c).2 (hplain c hc)
    have hstop : ∀ c ∈ (ending :: rest).head?, ¬ isNameChar c := forall_head?_cons hending rest
    obtain ⟨c, part, rfl⟩ := List.exists_cons_of_ne_nil hne
    unfold part?
    rw [takeWhile_run hchars hstop, dropWhile_run hchars hstop]
    exact if_pos rfl

theorem not_isNameChar_at : ¬ isNameChar '@' := by decide

theorem not_isNameChar_slash : ¬ isNameChar '/' := by decide

theorem name?_eq_some_iff :
    name? s = some (name, rest) ↔ KeyName name ∧ s = name ++ '@' :: rest := by
  constructor
  · intro h
    unfold name? at h
    split at h
    · rename_i s
      simp only [Option.bind_eq_bind, Option.bind_eq_some_iff, Prod.exists, Option.pure_def,
        Option.some.injEq, Prod.mk.injEq] at h
      obtain ⟨scope, after, hscope, part, rest', hpart, rfl, rfl⟩ := h
      obtain ⟨hscopePart, rfl⟩ := (part?_eq_some_iff not_isNameChar_slash).1 hscope
      obtain ⟨hnamePart, rfl⟩ := (part?_eq_some_iff not_isNameChar_at).1 hpart
      exact ⟨.withScope hscopePart hnamePart, by simp⟩
    · obtain ⟨hpart, rfl⟩ := (part?_eq_some_iff not_isNameChar_at).1 h
      exact ⟨.plain hpart, rfl⟩
  · rintro ⟨hname, rfl⟩
    cases hname with
    | plain h =>
      have hpart : part? '@' (name ++ '@' :: rest) = some (name, rest) :=
        (part?_eq_some_iff not_isNameChar_at).2 ⟨h, rfl⟩
      obtain ⟨c, part, rfl⟩ := List.exists_cons_of_ne_nil h.ne_nil
      unfold name?
      split
      · rename_i heq
        exact absurd (List.cons.inj heq).1 (h.plain c List.mem_cons_self).1
      · exact hpart
    | @withScope scope part hscope h =>
      have hscopePart : part? '/' (scope ++ '/' :: (part ++ '@' :: rest)) =
          some (scope, part ++ '@' :: rest) := (part?_eq_some_iff not_isNameChar_slash).2 ⟨hscope, rfl⟩
      have hnamePart : part? '@' (part ++ '@' :: rest) = some (part, rest) :=
        (part?_eq_some_iff not_isNameChar_at).2 ⟨h, rfl⟩
      have hassoc : '@' :: (scope ++ '/' :: part) ++ '@' :: rest =
          '@' :: (scope ++ '/' :: (part ++ '@' :: rest)) := by simp
      rw [hassoc]
      simp only [name?, hscopePart, hnamePart, Option.bind_eq_bind, Option.bind_some]
      rfl

theorem peersText_cons (peer : List Char) (peers : List (List Char)) :
    peersText (peer :: peers) = '(' :: (peer ++ ')' :: peersText peers) := by
  simp [peersText]

theorem peersText_head? {peers : List (List Char)} (hne : peersText peers ≠ []) :
    (peersText peers).head? = some '(' := by
  cases peers with
  | nil => contradiction
  | cons peer peers => rw [peersText_cons]; rfl

theorem peersText_getLast? {peers : List (List Char)} (hne : peersText peers ≠ []) :
    (peersText peers).getLast? = some ')' := by
  induction peers with
  | nil => contradiction
  | cons peer peers ih =>
    rw [peersText_cons, ← List.cons_append, List.getLast?_append_of_ne_nil _ (List.cons_ne_nil _ _)]
    by_cases h : peersText peers = []
    · rw [h]
      rfl
    · rw [List.getLast?_cons, ih h]
      rfl

theorem colon_not_mem_peersText {peers : List (List Char)} (h : ∀ p ∈ peers, ':' ∉ p) :
    ':' ∉ peersText peers := by
  intro hmem
  obtain ⟨peer, hpeer, hcolon⟩ := List.mem_flatMap.1 hmem
  have hnot := h peer hpeer
  simp [hnot] at hcolon

/-- Groups that stand side by side are read as one. -/
theorem exists_peersText_iff (hcolon : ':' ∉ s) :
    (s.isEmpty || (s.head? = some '(' && s.getLast? = some ')')) ↔
      ∃ peers, (∀ p ∈ peers, ':' ∉ p) ∧ s = peersText peers := by
  simp only [Bool.or_eq_true, Bool.and_eq_true, decide_eq_true_eq, List.isEmpty_iff]
  constructor
  · rintro (rfl | ⟨hopen, hclose⟩)
    · exact ⟨[], fun _ hp => absurd hp List.not_mem_nil, rfl⟩
    · obtain ⟨t, rfl⟩ := List.head?_eq_some_iff.1 hopen
      have hne : t ≠ [] := by
        rintro rfl
        exact absurd (Option.some.inj hclose) (by decide)
      have hlast : t.getLast? = some ')' := by
        rwa [← List.singleton_append, List.getLast?_append_of_ne_nil _ hne] at hclose
      have ht := List.dropLast_append_getLast? ')' hlast
      refine ⟨[t.dropLast], List.forall_mem_singleton.2 fun hmem => hcolon ?_, ?_⟩
      · exact List.mem_cons_of_mem _ ((List.dropLast_prefix t).subset hmem)
      · rw [peersText_cons]
        exact congrArg ('(' :: ·) ht.symm
  · rintro ⟨peers, -, rfl⟩
    by_cases hne : peersText peers = []
    · exact .inl hne
    · exact .inr ⟨peersText_head? hne, peersText_getLast? hne⟩

theorem isPeers_iff (hcolon : ':' ∉ s) : isPeers s ↔
    ∃ peers closing, (∀ p ∈ peers, ':' ∉ p) ∧ closing ∈ quotes ∧ s = peersText peers ++ closing := by
  constructor
  · intro h
    simp only [isPeers] at h
    split at h
    · rename_i hquote
      obtain ⟨q, hlast, hq⟩ := (Option.any_eq_true _ _).1 hquote
      have hs := List.dropLast_append_getLast? q hlast
      have hcolon' : ':' ∉ s.dropLast := fun hmem => hcolon ((List.dropLast_prefix s).subset hmem)
      obtain ⟨peers, hpeers, hgroups⟩ := (exists_peersText_iff hcolon').1 h
      rw [hgroups] at hs
      exact ⟨peers, [q], hpeers, mem_quotes_iff.2 (.inr ⟨q, hq, rfl⟩), hs.symm⟩
    · obtain ⟨peers, hpeers, rfl⟩ := (exists_peersText_iff hcolon).1 h
      exact ⟨peers, [], hpeers, mem_quotes_iff.2 (.inl rfl), (List.append_nil _).symm⟩
  · rintro ⟨peers, closing, hpeers, hclosing, rfl⟩
    have hgroups := (exists_peersText_iff (colon_not_mem_peersText hpeers)).2 ⟨peers, hpeers, rfl⟩
    simp only [isPeers]
    rcases mem_quotes_iff.1 hclosing with rfl | ⟨q, hq, rfl⟩
    · have hlast : ¬ (peersText peers).getLast?.any isQuote := by
        by_cases hne : peersText peers = []
        · rw [hne]
          decide
        · rw [peersText_getLast? hne]
          decide
      rw [List.append_nil, if_neg hlast]
      exact hgroups
    · rw [List.getLast?_concat, List.dropLast_concat, if_pos (by exact hq)]
      exact hgroups

theorem isKeyEnd_iff : isKeyEnd s ↔ KeyEnd s := by
  constructor
  · intro h
    have hs := (List.takeWhile_append_dropWhile (p := (· != ':')) (l := s)).symm
    unfold isKeyEnd at h
    split at h
    · rename_i trail hdrop
      rw [Bool.and_eq_true, List.all_eq_true] at h
      have hcolon : ':' ∉ s.takeWhile (· != ':') := by
        intro hmem
        have hne := List.mem_takeWhile_imp hmem
        exact absurd hne (by decide)
      obtain ⟨peers, closing, hpeers, hclosing, htake⟩ := (isPeers_iff hcolon).1 h.1
      rw [hdrop, htake, List.append_assoc] at hs
      rw [hs]
      exact .intro hpeers hclosing h.2
    · contradiction
  · rintro ⟨hpeers, hclosing, htrail⟩
    rename_i peers closing trail
    have hcolon : ':' ∉ peersText peers ++ closing := by
      rw [List.mem_append, not_or]
      refine ⟨colon_not_mem_peersText hpeers, fun hmem => ?_⟩
      rcases mem_quotes_iff.1 hclosing with rfl | ⟨q, hq, rfl⟩
      · exact absurd hmem List.not_mem_nil
      · rw [← List.mem_singleton.1 hmem] at hq
        exact absurd hq (by decide)
    have hplain : ∀ c ∈ peersText peers ++ closing, (c != ':') = true := by
      intro c hc
      rw [bne_iff_ne]
      rintro rfl
      exact hcolon hc
    have hstop : ∀ c ∈ (':' :: trail).head?, ¬ (c != ':') = true :=
      forall_head?_cons (by decide) trail
    rw [← List.append_assoc]
    unfold isKeyEnd
    rw [takeWhile_run hplain hstop, dropWhile_run hplain hstop]
    refine Bool.and_eq_true_iff.2 ⟨?_, List.all_eq_true.2 htrail⟩
    exact (isPeers_iff hcolon).2 ⟨peers, closing, hpeers, hclosing, rfl⟩

theorem KeyName.exists_cons (h : KeyName name) :
    ∃ c rest, name = c :: rest ∧ ¬ isQuote c ∧ c ≠ '/' ∧ ¬ isBlank c := by
  cases h with
  | plain h =>
    obtain ⟨c, rest, rfl⟩ := List.exists_cons_of_ne_nil h.ne_nil
    obtain ⟨-, hslash, hquote, hmark, hblank⟩ := h.plain c List.mem_cons_self
    exact ⟨c, rest, rfl, by simp [isQuote, hquote, hmark], hslash, hblank⟩
  | withScope => exact ⟨'@', _, rfl, by decide, by decide, by decide⟩

theorem KeyEnd.exists_cons (h : KeyEnd s) : ∃ c rest, s = c :: rest ∧ ¬ isVersionChar c := by
  obtain ⟨-, hclosing, -⟩ := h
  rename_i peers closing trail
  cases peers with
  | nil =>
    rcases mem_quotes_iff.1 hclosing with rfl | ⟨q, hq, rfl⟩
    · exact ⟨':', trail, rfl, by decide⟩
    · exact ⟨q, ':' :: trail, rfl, by simp [isVersionChar, hq]⟩
  | cons peer peers =>
    rw [peersText_cons]
    exact ⟨'(', _, rfl, by decide⟩

theorem isVersionChar_of_isDigit {c : Char} (h : isDigit c) : isVersionChar c := by
  rw [isVersionChar_iff]
  exact ⟨ne_of_isDigit h rfl, ne_of_isDigit h rfl, ne_of_isDigit h rfl, ne_of_isDigit h rfl,
    not_isBlank_of_isDigit h⟩

/-- What stands behind the indentation of a key, up to its version. -/
theorem name?_dropOptional_eq_some_iff :
    name? (dropOptional (· == '/') (dropOptional isQuote s)) = some (name, rest) ↔
      ∃ opening ∈ quotes, ∃ slash ∈ [[], ['/']], KeyName name ∧
        s = opening ++ (slash ++ (name ++ '@' :: rest)) := by
  rw [name?_eq_some_iff]
  constructor
  · rintro ⟨hname, hrest⟩
    obtain ⟨opening, hopening, hs⟩ := exists_append_dropOptional isQuote s
    obtain ⟨slash, hslash, hinner⟩ := exists_append_dropOptional (· == '/') (dropOptional isQuote s)
    rw [hrest] at hinner
    rw [hinner] at hs
    refine ⟨opening, mem_quotes_iff.2 hopening, slash, ?_, hname, hs⟩
    rcases hslash with rfl | ⟨c, hc, rfl⟩
    · simp
    · simpa using hc
  · rintro ⟨opening, hopening, slash, hslash, hname, rfl⟩
    refine ⟨hname, ?_⟩
    obtain ⟨c, t, rfl, hquote, hne, -⟩ := hname.exists_cons
    rcases mem_mark_iff.1 hslash with rfl | rfl
    · have hslash : ¬ (c == '/') = true := by simpa using hne
      have hstart : ∀ d ∈ (c :: t ++ '@' :: rest).head?, ¬ isQuote d := forall_head?_cons hquote _
      rw [List.nil_append, dropOptional_quotes_append hopening hstart]
      exact dropOptional_of_head (forall_head?_cons hslash _)
    · have hstart : ∀ d ∈ (['/'] ++ (c :: t ++ '@' :: rest)).head?, ¬ isQuote d :=
        forall_head?_cons (by decide) _
      rw [dropOptional_quotes_append hopening hstart]
      exact dropOptional_cons rfl _

theorem not_isBlank_of_isQuote {c : Char} (h : isQuote c) : ¬ isBlank c := by
  rcases (isQuote_iff c).1 h with rfl | rfl <;> decide

/-- The indentation ends where the key begins. -/
theorem head?_key_not_isBlank {opening slash : List Char} (hopening : opening ∈ quotes)
    (hslash : slash ∈ [[], ['/']]) (hname : KeyName name) (rest : List Char) :
    ∀ c ∈ (opening ++ (slash ++ (name ++ '@' :: rest))).head?, ¬ isBlank c := by
  rcases mem_quotes_iff.1 hopening with rfl | ⟨q, hq, rfl⟩
  · rcases mem_mark_iff.1 hslash with rfl | rfl
    · obtain ⟨d, t, rfl, -, -, hblank⟩ := hname.exists_cons
      exact forall_head?_cons hblank _
    · exact forall_head?_cons (by decide) _
  · exact forall_head?_cons (not_isBlank_of_isQuote hq) _

/-- A key is parted in one way only. -/
theorem key?_eq_some_iff : key? line = some (String.ofList name, String.ofList version) ↔
    KeyLine name version line := by
  unfold key?
  simp only [Option.bind_eq_bind, Option.bind_eq_some_iff, Option.guard_eq_some', Prod.exists,
    Option.pure_def, Option.some.injEq, Prod.mk.injEq, String.ofList_inj]
  constructor
  · rintro ⟨-, hindented, _, rest, hname, -, hdigit, -, hending, rfl, rfl⟩
    obtain ⟨opening, hopening, slash, hslash, hname, htext⟩ := name?_dropOptional_eq_some_iff.1 hname
    have hversion : KeyVersion (rest.takeWhile isVersionChar) := by
      refine ⟨?_, fun c hc => (isVersionChar_iff c).1 (List.mem_takeWhile_imp hc)⟩
      cases rest with
      | nil => contradiction
      | cons d rest =>
        have hd : isDigit d := hdigit
        exact ⟨d, _, List.takeWhile_cons_of_pos (isVersionChar_of_isDigit hd), hd⟩
    have hkey := KeyLine.intro (allBlank_takeWhile line) (takeWhile_isBlank_ne_nil hindented)
      hopening hslash hname hversion (isKeyEnd_iff.1 hending)
    rwa [List.takeWhile_append_dropWhile, ← htext, takeWhile_append_trimLeft] at hkey
  · rintro ⟨hindent, hindented, hopening, hslash, hname, hversion, hending⟩
    rename_i indent opening slash ending
    have hchars : ∀ c ∈ version, isVersionChar c :=
      fun c hc => (isVersionChar_iff c).2 (hversion.plain c hc)
    have hstop : ∀ c ∈ ending.head?, ¬ isVersionChar c := by
      obtain ⟨c, t, rfl, hc⟩ := hending.exists_cons
      exact forall_head?_cons hc t
    have hblank := head?_key_not_isBlank hopening hslash hname (version ++ ending)
    have hread : name? (dropOptional (· == '/') (dropOptional isQuote
        (opening ++ (slash ++ (name ++ '@' :: (version ++ ending)))))) =
        some (name, version ++ ending) :=
      name?_dropOptional_eq_some_iff.2 ⟨opening, hopening, slash, hslash, hname, rfl⟩
    obtain ⟨b, indent, rfl⟩ := List.exists_cons_of_ne_nil hindented
    obtain ⟨d, digits, rfl, hd⟩ := hversion.digit
    rw [trimLeft_run hindent hblank, hread]
    refine ⟨(), hindent.of_cons.1, name, _, rfl, (), hd, (), ?_, rfl, ?_⟩
    · rw [dropWhile_run hchars hstop]
      exact isKeyEnd_iff.2 hending
    · exact takeWhile_run hchars hstop

/-- A line that cannot be a key: it is not indented, no colon ends it, or no at sign in it has a
digit behind it. -/
inductive Plain (line : List Char) : Prop
  | unindented (h : ∀ c ∈ line.head?, ¬ isBlank c)
  | noColon (h : (trimRight line).getLast? ≠ some ':')
  | noVersion (h : ∀ before d after, line = before ++ '@' :: d :: after → ¬ isDigit d)

theorem KeyLine.not_plain (h : KeyLine name version line) : ¬ Plain line := by
  obtain ⟨hindent, hindented, hopening, hslash, hname, hversion, hending⟩ := h
  rename_i indent opening slash ending
  rintro (hhead | hcolon | hdigit)
  · obtain ⟨c, indent, rfl⟩ := List.exists_cons_of_ne_nil hindented
    exact hhead c rfl hindent.of_cons.1
  · obtain ⟨hpeers, hclosing, htrail⟩ := hending
    rename_i peers closing trail
    apply hcolon
    have hassoc : indent ++ (opening ++ (slash ++ (name ++ '@' :: (version ++
        (peersText peers ++ (closing ++ ':' :: trail)))))) =
        indent ++ opening ++ slash ++ name ++ '@' :: version ++ peersText peers ++ closing ++
          ':' :: trail := by simp
    rw [hassoc, trimRight_append_cons (by decide), trimRight_of_allBlank htrail,
      List.getLast?_concat]
  · obtain ⟨⟨d, rest, rfl, hd⟩, -⟩ := hversion
    apply hdigit (indent ++ opening ++ slash ++ name) d (rest ++ ending) _ hd
    simp

theorem key?_of_plain (h : Plain line) : key? line = none := by
  rw [Option.eq_none_iff_forall_not_mem]
  rintro ⟨name, version⟩ hkey
  rw [← String.ofList_toList (s := name), ← String.ofList_toList (s := version)] at hkey
  exact (key?_eq_some_iff.1 hkey).not_plain h

/-- A key that stands in a line of its own. -/
structure Key where
  name : List Char
  version : List Char
  line : List Char
  keyLine : KeyLine name version line

/-- A line of a lock file. -/
inductive Row
  | key (k : Key)
  | plain (line : List Char) (h : Plain line)

def Row.text : Row → List Char
  | .key k => k.line
  | .plain line _ => line

def Row.entry? : Row → Option (String × String)
  | .key k => some (String.ofList k.name, String.ofList k.version)
  | .plain _ _ => none

theorem key?_row (r : Row) : key? r.text = r.entry? := by
  cases r with
  | key k => exact key?_eq_some_iff.2 k.keyLine
  | plain line h => exact key?_of_plain h

/-- A file is read as the versions of its keys, in order. -/
theorem read_rows (rows : List Row) (text : String)
    (h : WrittenLines (rows.map Row.text) text.toList) :
    Table.Collects (rows.filterMap Row.entry?) (read text) := by
  obtain ⟨last, hlines, hlast⟩ := h.exists_append
  have hempty : last.filterMap key? = [] := by
    rw [List.filterMap_eq_nil_iff]
    intro l hl
    rw [hlast l hl]
    rfl
  have hkeys : (lines text.toList).filterMap key? = rows.filterMap Row.entry? := by
    calc (lines text.toList).filterMap key?
        = (lines text.toList).filterMap key? ++ last.filterMap key? := by
          rw [hempty, List.append_nil]
      _ = (rows.map Row.text).filterMap key? := by rw [hlines, List.filterMap_append]
      _ = rows.filterMap Row.entry? := by
          rw [List.filterMap_map]
          exact List.filterMap_congr fun r _ => key?_row r
  have hread : read text = Table.ofList (rows.filterMap Row.entry?) := congrArg Table.ofList hkeys
  rw [hread]
  exact Table.collects_ofList _

def scopedKey : Key where
  name := "@scope/pkg".toList
  version := "1.2.3-rc.1".toList
  line := "  '@scope/pkg@1.2.3-rc.1(peer@2.0.0(@x/y@1))(z@3)': ".toList
  keyLine := key?_eq_some_iff.1 rfl

def slashKey : Key where
  name := "left-pad".toList
  version := "1.3.0".toList
  line := "  /left-pad@1.3.0:".toList
  keyLine := key?_eq_some_iff.1 rfl

def laterKey : Key where
  name := "@scope/pkg".toList
  version := "2.0.0".toList
  line := "\t@scope/pkg@2.0.0(peer@2.0.0):".toList
  keyLine := key?_eq_some_iff.1 rfl

def sampleRows : List Row :=
  [.plain "packages:".toList (.unindented (forall_head?_cons (by decide) _)),
    .key scopedKey,
    .plain "    resolution: sha512-A@1=".toList (.noColon (by decide)),
    .key slashKey,
    .plain [] (.unindented fun c hc => nomatch hc),
    .key laterKey]

def sampleText : String := String.ofList (['\n'].intercalate (sampleRows.map Row.text))

theorem read_sampleRows :
    WrittenLines (sampleRows.map Row.text) sampleText.toList ∧
      Table.Collects [("@scope/pkg", "1.2.3-rc.1"), ("left-pad", "1.3.0"), ("@scope/pkg", "2.0.0")]
        (read sampleText) := by
  have hlines : ∀ l ∈ sampleRows.map Row.text, OneLine l :=
    oneLine_of_flatten (by decide +kernel)
  have hwritten : WrittenLines (sampleRows.map Row.text) sampleText.toList := by
    rw [sampleText, String.toList_ofList]
    exact writtenLines_intercalate (.boundary rfl) (by decide) hlines
  exact ⟨hwritten, read_rows sampleRows sampleText hwritten⟩

end DependencyAudit.Lock.Pnpm
