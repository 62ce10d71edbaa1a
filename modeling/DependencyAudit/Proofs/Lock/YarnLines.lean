import DependencyAudit.Lock.Yarn
import DependencyAudit.Proofs.Text.Words

/-!
# The lines of yarn.lock

What the reader takes for the header of a package and for a version, told by how such lines are
written. A line is taken for one of them just in case it is written so.
-/

namespace DependencyAudit.Lock.Yarn

open Text

/-- A line that starts the block of a package: a name with an at sign behind it, perhaps within
quotation marks. A name without a mark before it must not start a comment. -/
inductive HeaderLine : (name : List Char) → (line : List Char) → Prop
  | intro {quote scope plain rest : List Char} (hquote : quote ∈ [[], ['"']])
      (hscope : scope ∈ [[], ['@']]) (hne : plain ≠ [])
      (hplain : ∀ c ∈ plain, c ≠ '@' ∧ c ≠ ',' ∧ c ≠ '"' ∧ ¬ isBlank c)
      (hcomment : quote = [] → (scope ++ plain).head? ≠ some '#') :
      HeaderLine (scope ++ plain) (quote ++ (scope ++ (plain ++ '@' :: rest)))

/-- A version, perhaps within quotation marks, with blanks behind it. -/
inductive VersionValue : (version : List Char) → (value : List Char) → Prop
  | intro {opening version closing trail : List Char} (hopening : opening ∈ [[], ['"']])
      (hne : version ≠ []) (hversion : ∀ c ∈ version, c ≠ '"' ∧ ¬ isBlank c)
      (hclosing : closing ∈ [[], ['"']]) (htrail : AllBlank trail) :
      VersionValue version (opening ++ (version ++ (closing ++ trail)))

/-- An indented line with the version of a package. -/
inductive VersionLine : (version : List Char) → (line : List Char) → Prop
  | intro {indent colon gap version value : List Char} (hindent : AllBlank indent)
      (hindented : indent ≠ []) (hcolon : colon ∈ [[], [':']]) (hgap : AllBlank gap)
      (hparted : gap ≠ []) (hvalue : VersionValue version value) :
      VersionLine version (indent ++ (versionKeyword ++ (colon ++ (gap ++ value))))

/-- A blank line, a comment or an indented line. -/
def Inner (line : List Char) : Prop :=
  AllBlank line ∨ (trimLeft line).head? = some '#' ∨ ∃ c ∈ line.head?, isBlank c

def Unindented (line : List Char) : Prop := ∀ c ∈ line.head?, ¬ isBlank c

variable {line name version value : List Char}

theorem isNameChar_iff (c : Char) :
    isNameChar c ↔ c ≠ '@' ∧ c ≠ ',' ∧ c ≠ '"' ∧ ¬ isBlank c := by
  simp [isNameChar, and_assoc]

theorem isVersionChar_iff (c : Char) : isVersionChar c ↔ c ≠ '"' ∧ ¬ isBlank c := by
  simp [isVersionChar]

theorem dropOptional_append {c : Char} {mark rest : List Char} (h : mark ∈ [[], [c]])
    (hrest : ∀ d ∈ rest.head?, d ≠ c) : dropOptional c (mark ++ rest) = rest := by
  rcases mem_mark_iff.1 h with rfl | rfl
  · cases rest with
    | nil => rfl
    | cons d rest => exact if_neg (hrest d rfl)
  · exact if_pos rfl

theorem exists_append_dropOptional (c : Char) (s : List Char) :
    ∃ mark ∈ [[], [c]], s = mark ++ dropOptional c s := by
  cases s with
  | nil => exact ⟨[], by simp, rfl⟩
  | cons d s =>
    by_cases h : d = c
    · exact ⟨[c], by simp, by simp [dropOptional, h]⟩
    · exact ⟨[], by simp, by simp [dropOptional, h]⟩

theorem nameBeforeAt?_eq_some_iff {s : List Char} : nameBeforeAt? s = some name ↔
    name ≠ [] ∧ (∀ c ∈ name, isNameChar c) ∧ ∃ rest, s = name ++ '@' :: rest := by
  constructor
  · intro h
    unfold nameBeforeAt? at h
    split at h
    · rename_i c plain rest htake hdrop
      obtain rfl := Option.some.inj h
      refine ⟨List.cons_ne_nil c plain, ?_, rest, ?_⟩
      · intro d hd
        rw [← htake] at hd
        exact List.mem_takeWhile_imp hd
      · rw [← htake, ← hdrop, List.takeWhile_append_dropWhile]
    · contradiction
  · rintro ⟨hne, hname, rest, rfl⟩
    have hstop : ∀ c ∈ ('@' :: rest).head?, ¬ isNameChar c := forall_head?_cons (by decide) rest
    obtain ⟨c, plain, rfl⟩ := List.exists_cons_of_ne_nil hne
    unfold nameBeforeAt?
    rw [takeWhile_run hname hstop, dropWhile_run hname hstop]
    rfl

theorem headerName?_eq_some_iff : headerName? line = some name ↔
    ∃ quote ∈ [[], ['"']], ∃ scope ∈ [[], ['@']], ∃ plain rest, plain ≠ [] ∧
      (∀ c ∈ plain, isNameChar c) ∧ name = scope ++ plain ∧
      line = quote ++ (scope ++ (plain ++ '@' :: rest)) := by
  constructor
  · intro h
    obtain ⟨quote, hquote, hline⟩ := exists_append_dropOptional '"' line
    unfold headerName? at h
    split at h
    · rename_i descriptor hscope
      obtain ⟨plain, hplain, rfl⟩ := Option.map_eq_some_iff.1 h
      obtain ⟨hne, hchars, rest, rfl⟩ := nameBeforeAt?_eq_some_iff.1 hplain
      rw [hscope] at hline
      exact ⟨quote, hquote, ['@'], by simp, plain, rest, hne, hchars, rfl, hline⟩
    · obtain ⟨hne, hchars, rest, hrest⟩ := nameBeforeAt?_eq_some_iff.1 h
      rw [hrest] at hline
      exact ⟨quote, hquote, [], by simp, name, rest, hne, hchars, rfl, hline⟩
  · rintro ⟨quote, hquote, scope, hscope, plain, rest, hne, hchars, rfl, rfl⟩
    have hplain : nameBeforeAt? (plain ++ '@' :: rest) = some plain :=
      nameBeforeAt?_eq_some_iff.2 ⟨hne, hchars, rest, rfl⟩
    obtain ⟨c, plain, rfl⟩ := List.exists_cons_of_ne_nil hne
    have hc := (isNameChar_iff c).1 (hchars c List.mem_cons_self)
    have hmark : ∀ d ∈ (scope ++ (c :: plain ++ '@' :: rest)).head?, d ≠ '"' := by
      rcases mem_mark_iff.1 hscope with rfl | rfl
      · exact forall_head?_cons (P := (· ≠ '"')) hc.2.2.1 _
      · exact forall_head?_cons (by decide) _
    unfold headerName?
    rw [dropOptional_append hquote hmark]
    rcases mem_mark_iff.1 hscope with rfl | rfl
    · rw [List.nil_append, List.nil_append]
      split
      · rename_i heq
        exact absurd (List.cons.inj heq).1 hc.1
      · exact hplain
    · change ('@' :: ·) <$> nameBeforeAt? (c :: plain ++ '@' :: rest) = _
      rw [hplain]
      rfl

theorem VersionValue.exists_cons (h : VersionValue version value) :
    ∃ c rest, value = c :: rest ∧ ¬ isBlank c := by
  obtain ⟨hopening, hne, hversion, -, -⟩ := h
  obtain ⟨c, rest, rfl⟩ := List.exists_cons_of_ne_nil hne
  rcases mem_mark_iff.1 hopening with rfl | rfl
  · exact ⟨c, _, rfl, (hversion c List.mem_cons_self).2⟩
  · exact ⟨'"', _, rfl, by decide⟩

theorem versionValue_iff : VersionValue version value ↔
    (dropOptional '"' value).takeWhile isVersionChar = version ∧ version ≠ [] ∧
      AllBlank (dropOptional '"' ((dropOptional '"' value).dropWhile isVersionChar)) := by
  constructor
  · rintro ⟨hopening, hne, hversion, hclosing, htrail⟩
    rename_i opening closing trail
    have hchars : ∀ c ∈ version, isVersionChar c :=
      fun c hc => (isVersionChar_iff c).2 (hversion c hc)
    have hstart : ∀ c ∈ (version ++ (closing ++ trail)).head?, c ≠ '"' := by
      rw [List.head?_append_of_ne_nil _ hne]
      exact fun c hc => (hversion c (List.mem_of_mem_head? hc)).1
    have hend : ∀ c ∈ (closing ++ trail).head?, ¬ isVersionChar c := by
      intro c hc hchar
      rw [isVersionChar_iff] at hchar
      rcases mem_mark_iff.1 hclosing with rfl | rfl
      · exact hchar.2 (htrail c (List.mem_of_mem_head? hc))
      · exact hchar.1 (Option.some.inj hc).symm
    have htrailStart : ∀ c ∈ trail.head?, c ≠ '"' := by
      rintro c hc rfl
      exact absurd (htrail _ (List.mem_of_mem_head? hc)) (by decide)
    rw [dropOptional_append hopening hstart, takeWhile_run hchars hend, dropWhile_run hchars hend,
      dropOptional_append hclosing htrailStart]
    exact ⟨rfl, hne, htrail⟩
  · rintro ⟨rfl, hne, htrail⟩
    obtain ⟨opening, hopening, hvalue⟩ := exists_append_dropOptional '"' value
    generalize dropOptional '"' value = inner at *
    obtain ⟨closing, hclosing, hrest⟩ :=
      exists_append_dropOptional '"' (inner.dropWhile isVersionChar)
    have hversion : ∀ c ∈ inner.takeWhile isVersionChar, c ≠ '"' ∧ ¬ isBlank c :=
      fun c hc => (isVersionChar_iff c).1 (List.mem_takeWhile_imp hc)
    have hinner := VersionValue.intro hopening hne hversion hclosing htrail
    rwa [← hrest, List.takeWhile_append_dropWhile, ← hvalue] at hinner

theorem version?_eq_some_iff : version? line = some version ↔
    ∃ colon ∈ [[], [':']], ∃ gap value, AllBlank gap ∧ gap ≠ [] ∧ VersionValue version value ∧
      trimLeft line = versionKeyword ++ (colon ++ (gap ++ value)) := by
  constructor
  · intro h
    simp only [version?] at h
    split at h
    · rename_i hkeyword
      obtain ⟨after, hafter⟩ := List.isPrefixOf_iff_prefix.1 hkeyword
      rw [← hafter, List.drop_left] at h
      split at h
      · rename_i hread
        obtain ⟨colon, hcolon, hmark⟩ := exists_append_dropOptional ':' after
        generalize dropOptional ':' after = afterColon at *
        simp only [Bool.and_eq_true, Bool.not_eq_true', List.isEmpty_eq_false_iff,
          List.all_eq_true] at hread
        have hvalue : VersionValue version (trimLeft afterColon) := by
          obtain rfl := Option.some.inj h
          exact versionValue_iff.2 ⟨rfl, hread.1.2, hread.2⟩
        refine ⟨colon, hcolon, afterColon.takeWhile isBlank, trimLeft afterColon,
          allBlank_takeWhile _, takeWhile_isBlank_ne_nil hread.1.1, hvalue, ?_⟩
        rw [takeWhile_append_trimLeft, ← hmark, hafter]
      · contradiction
    · contradiction
  · rintro ⟨colon, hcolon, gap, value, hgap, hparted, hvalue, htext⟩
    obtain ⟨c, rest, rfl, hc⟩ := hvalue.exists_cons
    obtain ⟨rfl, hne, htrail⟩ := versionValue_iff.1 hvalue
    have hkeyword : versionKeyword.isPrefixOf (trimLeft line) = true := by
      rw [htext]
      exact List.isPrefixOf_iff_prefix.2 (List.prefix_append _ _)
    obtain ⟨b, gap, rfl⟩ := List.exists_cons_of_ne_nil hparted
    have hb := hgap.of_cons.1
    have hcolonBlank : b ≠ ':' := by
      rintro rfl
      contradiction
    have hmark : ∀ d ∈ (b :: gap ++ c :: rest).head?, d ≠ ':' :=
      forall_head?_cons (P := (· ≠ ':')) hcolonBlank _
    have hstart : ∀ d ∈ (c :: rest).head?, ¬ isBlank d := forall_head?_cons hc rest
    have hblank : ((b :: gap ++ c :: rest).head?.any isBlank) = true := hb
    simp only [version?]
    rw [if_pos hkeyword, htext, List.drop_left, dropOptional_append hcolon hmark,
      trimLeft_run hgap hstart]
    refine if_pos ?_
    simp only [Bool.and_eq_true, Bool.not_eq_true', List.isEmpty_eq_false_iff, List.all_eq_true]
    exact ⟨⟨hblank, hne⟩, htrail⟩

theorem HeaderLine.exists_cons (h : HeaderLine name line) :
    ∃ c rest, line = c :: rest ∧ ¬ isBlank c ∧ c ≠ '#' := by
  obtain ⟨hquote, hscope, hne, hplain, hcomment⟩ := h
  rcases mem_mark_iff.1 hquote with rfl | rfl
  · rcases mem_mark_iff.1 hscope with rfl | rfl
    · obtain ⟨c, plain, rfl⟩ := List.exists_cons_of_ne_nil hne
      have hc := hplain c List.mem_cons_self
      exact ⟨c, _, rfl, hc.2.2.2, fun hmark => hcomment rfl (congrArg some hmark)⟩
    · exact ⟨'@', _, rfl, by decide, by decide⟩
  · exact ⟨'"', _, rfl, by decide, by decide⟩

/-- Blanks at the end of a line make no difference. -/
theorem headerLine_trimRight_iff : HeaderLine name (trimRight line) ↔ HeaderLine name line := by
  have hassoc : ∀ quote scope plain rest : List Char,
      quote ++ (scope ++ (plain ++ '@' :: rest)) = quote ++ (scope ++ plain) ++ '@' :: rest := by
    simp
  constructor
  · obtain ⟨after, -, hline⟩ := exists_trimRight_append line
    generalize trimRight line = text at hline
    rintro ⟨hquote, hscope, hne, hplain, hcomment⟩
    rw [hline, hassoc, List.append_assoc, List.cons_append, ← hassoc]
    exact .intro hquote hscope hne hplain hcomment
  · rintro ⟨hquote, hscope, hne, hplain, hcomment⟩
    rw [hassoc, trimRight_append_cons (by decide), ← hassoc]
    exact .intro hquote hscope hne hplain hcomment

theorem VersionValue.append_blanks (h : VersionValue version value) {after : List Char}
    (hafter : AllBlank after) : VersionValue version (value ++ after) := by
  obtain ⟨hopening, hne, hversion, hclosing, htrail⟩ := h
  simp only [List.append_assoc]
  exact .intro hopening hne hversion hclosing (List.forall_mem_append.2 ⟨htrail, hafter⟩)

theorem VersionValue.trimRight (h : VersionValue version value) :
    VersionValue version (trimRight value) := by
  obtain ⟨hopening, hne, hversion, hclosing, htrail⟩ := h
  rename_i opening closing trail
  have hlast : ∀ c ∈ (opening ++ (version ++ closing)).getLast?, ¬ isBlank c := by
    rcases mem_mark_iff.1 hclosing with rfl | rfl
    · rw [List.append_nil, List.getLast?_append_of_ne_nil _ hne]
      exact fun c hc => (hversion c (List.mem_of_getLast? hc)).2
    · rw [← List.append_assoc, List.getLast?_concat]
      intro c hc
      rw [← Option.some.inj hc]
      decide
  have htrimmed : Text.trimRight (opening ++ (version ++ (closing ++ trail))) =
      opening ++ (version ++ (closing ++ [])) := by
    rw [← List.append_assoc version, ← List.append_assoc opening, trimRight_append_blanks htrail,
      List.append_nil]
    exact (trimRight_eq_self_iff _).2 hlast
  rw [htrimmed]
  exact .intro hopening hne hversion hclosing allBlank_nil

theorem VersionLine.exists_cons (h : VersionLine version line) :
    ∃ c rest, line = c :: rest ∧ isBlank c := by
  obtain ⟨hindent, hindented, -, -, -, -⟩ := h
  obtain ⟨c, indent, rfl⟩ := List.exists_cons_of_ne_nil hindented
  exact ⟨c, _, rfl, hindent.of_cons.1⟩

theorem versionLine_trimRight_iff : VersionLine version (trimRight line) ↔
    VersionLine version line := by
  constructor
  · obtain ⟨after, hafter, hline⟩ := exists_trimRight_append line
    generalize trimRight line = text at hline
    rintro ⟨hindent, hindented, hcolon, hgap, hparted, hvalue⟩
    have hlonger : VersionValue version (_ ++ after) := hvalue.append_blanks hafter
    rw [hline]
    simp only [List.append_assoc]
    exact .intro hindent hindented hcolon hgap hparted hlonger
  · rintro ⟨hindent, hindented, hcolon, hgap, hparted, hvalue⟩
    rename_i indent colon gap value
    have hshorter := hvalue.trimRight
    obtain ⟨c, rest, rfl, hc⟩ := hvalue.exists_cons
    have htrim : trimRight (c :: rest) = c :: trimRight rest := trimRight_append_cons hc [] rest
    have hassoc : ∀ rest : List Char, indent ++ (versionKeyword ++ (colon ++ (gap ++ c :: rest))) =
        indent ++ (versionKeyword ++ (colon ++ gap)) ++ c :: rest := by simp
    rw [hassoc, trimRight_append_cons hc, ← hassoc, ← htrim]
    exact .intro hindent hindented hcolon hgap hparted hshorter

/-- What a line is taken for, by what is left of it without the blanks at its end. -/
theorem classify_eq (line : List Char) : classify line =
    if (trimRight line).isEmpty || (trimLeft (trimRight line)).head? = some '#' then .other
    else if ! (trimRight line).head?.any isBlank then .header (headerName? (trimRight line))
    else match version? (trimRight line) with
      | some version => .version version
      | none => .other := rfl

theorem classify_eq_header_iff : classify line = .header (some name) ↔ HeaderLine name line := by
  rw [← headerLine_trimRight_iff, classify_eq]
  generalize trimRight line = text
  constructor
  · intro h
    split at h
    · contradiction
    · rename_i hcomment
      split at h
      · rw [Bool.or_eq_true, decide_eq_true_eq, not_or] at hcomment
        obtain ⟨quote, hquote, scope, hscope, plain, rest, hne, hchars, rfl, rfl⟩ :=
          headerName?_eq_some_iff.1 (Line.header.inj h)
        have hplain : ∀ c ∈ plain, c ≠ '@' ∧ c ≠ ',' ∧ c ≠ '"' ∧ ¬ isBlank c :=
          fun c hc => (isNameChar_iff c).1 (hchars c hc)
        refine .intro hquote hscope hne hplain ?_
        rintro rfl hmark
        obtain ⟨t, ht⟩ := List.head?_eq_some_iff.1 hmark
        apply hcomment.2
        rw [List.nil_append, ← List.append_assoc, ht]
        rfl
      · split at h <;> contradiction
  · intro h
    have hname : headerName? text = some name := by
      obtain ⟨hquote, hscope, hne, hplain, -⟩ := h
      exact headerName?_eq_some_iff.2 ⟨_, hquote, _, hscope, _, _, hne,
        fun c hc => (isNameChar_iff c).2 (hplain c hc), rfl, rfl⟩
    obtain ⟨c, rest, rfl, hc, hmark⟩ := h.exists_cons
    have htrim : trimLeft (c :: rest) = c :: rest := List.dropWhile_cons_of_neg hc
    rw [htrim, hname]
    simp [hc, hmark]

theorem classify_eq_version_iff : classify line = .version version ↔ VersionLine version line := by
  rw [← versionLine_trimRight_iff, classify_eq]
  generalize trimRight line = text
  constructor
  · intro h
    split at h
    · contradiction
    · split at h
      · contradiction
      · rename_i hindented
        split at h
        · rename_i hversion
          obtain rfl := Line.version.inj h
          obtain ⟨colon, hcolon, gap, value, hgap, hparted, hvalue, htext⟩ :=
            version?_eq_some_iff.1 hversion
          have hindent : text.takeWhile isBlank ≠ [] := takeWhile_isBlank_ne_nil (by simpa using hindented)
          rw [← takeWhile_append_trimLeft text, htext]
          exact .intro (allBlank_takeWhile text) hindent hcolon hgap hparted hvalue
        · contradiction
  · intro h
    obtain ⟨c, rest, htext, hc⟩ := h.exists_cons
    obtain ⟨hindent, -, hcolon, hgap, hparted, hvalue⟩ := h
    rename_i indent colon gap value
    have htrim : trimLeft (indent ++ (versionKeyword ++ (colon ++ (gap ++ value)))) =
        versionKeyword ++ (colon ++ (gap ++ value)) :=
      trimLeft_run hindent (forall_head?_cons (by decide) _)
    have hversion := version?_eq_some_iff.2 ⟨colon, hcolon, gap, value, hgap, hparted, hvalue, htrim⟩
    have hstart : (versionKeyword ++ (colon ++ (gap ++ value))).head? = some 'v' := rfl
    rw [hversion, htrim, hstart, htext]
    simp [hc]

/-- Lines below a header start no block. -/
theorem classify_ne_header (h : Inner line) (found : Option (List Char)) :
    classify line ≠ .header found := by
  rw [classify_eq]
  intro hheader
  split at hheader
  · contradiction
  · rename_i hother
    rw [Bool.or_eq_true, decide_eq_true_eq, not_or, List.isEmpty_iff] at hother
    split at hheader
    · rename_i hunindented
      rcases h with hblank | hcomment | ⟨c, hc, hblank⟩
      · exact hother.1 (trimRight_of_allBlank hblank)
      · obtain ⟨t, ht⟩ := List.head?_eq_some_iff.1 hcomment
        have hline := takeWhile_append_trimLeft line
        have hmark : ∀ rest : List Char, trimLeft (line.takeWhile isBlank ++ '#' :: rest) = '#' :: rest :=
          fun rest => trimLeft_run (allBlank_takeWhile line) (forall_head?_cons (by decide) rest)
        apply hother.2
        rw [← hline, ht, trimRight_append_cons (by decide), hmark]
        rfl
      · obtain ⟨after, -, hline⟩ := exists_trimRight_append line
        obtain ⟨d, rest, htext⟩ := List.exists_cons_of_ne_nil hother.1
        rw [htext] at hline hunindented
        rw [hline] at hc
        obtain rfl := Option.some.inj hc
        simp [hblank] at hunindented
    · split at hheader <;> contradiction

theorem classify_ne_version (h : Unindented line) : classify line ≠ .version version := by
  rw [Ne, classify_eq_version_iff]
  intro hversion
  obtain ⟨c, rest, rfl, hc⟩ := hversion.exists_cons
  exact h c rfl hc

end DependencyAudit.Lock.Yarn
