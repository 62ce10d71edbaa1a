import Mathlib.Data.Option.Basic
import Mathlib.Tactic.SplitIfs
import DependencyAudit.Json.Lexeme
import DependencyAudit.Json.Printer

/-!
# Quoted texts

A text in quotation marks, with its characters escaped, is read back as it is. A character outside
ASCII is found again from the code units of its escape, two of them if it lies beyond the sixteen
bits of one.
-/

namespace DependencyAudit.Json

open Text Value

theorem hexValue?_digitChar : ∀ k < 16, hexValue? (Nat.digitChar k) = some k := by decide

theorem hexDigits_one {n : Nat} (h : n < 16) : hexDigits 1 n = [Nat.digitChar n] := by
  rw [hexDigits, Nat.toDigits_of_lt_base h]
  rfl

theorem hexDigits_add_two (width n : Nat) :
    hexDigits (width + 2) n = hexDigits (width + 1) (n / 16) ++ [Nat.digitChar (n % 16)] := by
  unfold hexDigits
  by_cases h : n < 16
  · have hzero : Nat.toDigits 16 0 = ['0'] := rfl
    rw [Nat.toDigits_of_lt_base h, Nat.div_eq_of_lt h, Nat.mod_eq_of_lt h, hzero]
    change List.replicate (width + 1) '0' ++ _ = List.replicate width '0' ++ ['0'] ++ _
    rw [List.replicate_succ']
  · have hpadding : ∀ k, width + 2 - (k + 1) = width + 1 - k := fun k => by omega
    rw [Nat.toDigits_of_base_le (by decide) (Nat.not_lt.1 h)]
    simp only [List.length_append, List.length_singleton, hpadding, List.append_assoc]

theorem hexDigits_four {n : Nat} (h : n < 0x10000) : hexDigits 4 n =
    [Nat.digitChar (n / 16 / 16 / 16), Nat.digitChar (n / 16 / 16 % 16),
      Nat.digitChar (n / 16 % 16), Nat.digitChar (n % 16)] := by
  have hlead : n / 16 / 16 / 16 < 16 := by omega
  rw [hexDigits_add_two, hexDigits_add_two, hexDigits_add_two, hexDigits_one hlead]
  rfl

variable {rest : List Char}

theorem codeUnit?_hexDigits {n : Nat} (h : n < 0x10000) (hne : rest ≠ []) :
    codeUnit? (hexDigits 4 n ++ rest) = some n := by
  obtain ⟨c, rest, rfl⟩ := List.exists_cons_of_ne_nil hne
  have hlead : n / 16 / 16 / 16 < 16 := by omega
  have hdigit : ∀ k, k % 16 < 16 := fun k => Nat.mod_lt k (by decide)
  rw [hexDigits_four h]
  simp only [List.cons_append, List.nil_append, codeUnit?, hexValue?_digitChar _ hlead,
    hexValue?_digitChar _ (hdigit _), Option.bind_eq_bind, Option.bind_some, Option.pure_def,
    Option.some.injEq]
  omega

theorem isHighSurrogate_iff (n : Nat) : isHighSurrogate n ↔ 0xD800 ≤ n ∧ n < 0xDC00 := by
  simp [isHighSurrogate]

theorem isLowSurrogate_iff (n : Nat) : isLowSurrogate n ↔ 0xDC00 ≤ n ∧ n < 0xE000 := by
  simp [isLowSurrogate]

/-- The number of a character is no surrogate. -/
theorem toNat_cases (c : Char) : c.toNat < 0xD800 ∨ 0xE000 ≤ c.toNat ∧ c.toNat < 0x110000 := by
  have h := c.valid
  simp only [UInt32.isValidChar, Nat.isValidChar] at h
  change c.val.toNat < 0xD800 ∨ 0xE000 ≤ c.val.toNat ∧ c.val.toNat < 0x110000
  omega

theorem escapedChar_toNat (c : Char) (rest : List Char) : escapedChar c.toNat rest = (c, 0) := by
  have hc := toNat_cases c
  have hhigh : ¬ isHighSurrogate c.toNat := by
    rw [isHighSurrogate_iff]
    omega
  have hlow : ¬ isLowSurrogate c.toNat := by
    rw [isLowSurrogate_iff]
    omega
  simp only [escapedChar, guard, hhigh, hlow, Bool.false_eq_true, if_false, failure,
    Option.bind_eq_bind, Option.bind_none, Bool.or_self, Char.ofNat_toNat]

theorem toNat_ofNat_of_isValidChar {n : Nat} (h : n.isValidChar) : (Char.ofNat n).toNat = n := by
  rw [Char.ofNat, dif_pos h]
  rfl

theorem toNat_of_escapedChar {unit : Nat} (hunit : unit < 0x10000) {c : Char}
    (h : escapedChar unit rest = (c, 0)) :
    c.toNat = if isHighSurrogate unit || isLowSurrogate unit then 0x100000 + unit else unit := by
  unfold escapedChar at h
  dsimp only at h
  split at h
  · exact absurd (Prod.mk.inj h).2 (by decide)
  · split_ifs at h ⊢ with hsurrogate
    · rw [← (Prod.mk.inj h).1, unpaired]
      exact toNat_ofNat_of_isValidChar (.inr ⟨by omega, by omega⟩)
    · rw [← (Prod.mk.inj h).1]
      apply toNat_ofNat_of_isValidChar
      rw [Bool.or_eq_true, isHighSurrogate_iff, isLowSurrogate_iff] at hsurrogate
      unfold Nat.isValidChar
      omega

/-- Units that are not paired are told apart, surrogates or not. -/
theorem eq_of_escapedChar_eq {unit unit' : Nat} (hunit : unit < 0x10000) (hunit' : unit' < 0x10000)
    {rest' : List Char} {c : Char} (h : escapedChar unit rest = (c, 0))
    (h' : escapedChar unit' rest' = (c, 0)) : unit = unit' := by
  have hcode := (toNat_of_escapedChar hunit h).symm.trans (toNat_of_escapedChar hunit' h')
  split_ifs at hcode <;> omega

theorem escapedChar_pair {high low : Nat} (hhigh : isHighSurrogate high) (hlow : isLowSurrogate low)
    (hne : rest ≠ []) : escapedChar high (codeUnitEscape low ++ rest) =
      (Char.ofNat (0x10000 + (high - 0xD800) * 0x400 + (low - 0xDC00)), 6) := by
  have hunit : low < 0x10000 := by
    rw [isLowSurrogate_iff] at hlow
    omega
  simp only [escapedChar, codeUnitEscape, List.cons_append, guard, hhigh, hlow, if_true,
    codeUnit?_hexDigits hunit hne, Option.bind_eq_bind, Option.pure_def, Option.bind_some]

theorem escapedChar_surrogates {c : Char} (h : 0x10000 ≤ c.toNat) (hne : rest ≠ []) :
    escapedChar (0xD800 + (c.toNat - 0x10000) / 0x400)
      (codeUnitEscape (0xDC00 + (c.toNat - 0x10000) % 0x400) ++ rest) = (c, 6) := by
  have hc := toNat_cases c
  have hhigh : isHighSurrogate (0xD800 + (c.toNat - 0x10000) / 0x400) := by
    rw [isHighSurrogate_iff]
    omega
  have hlow : isLowSurrogate (0xDC00 + (c.toNat - 0x10000) % 0x400) := by
    rw [isLowSurrogate_iff]
    omega
  have hcode : 0x10000 + (0xD800 + (c.toNat - 0x10000) / 0x400 - 0xD800) * 0x400 +
      (0xDC00 + (c.toNat - 0x10000) % 0x400 - 0xDC00) = c.toNat := by omega
  rw [escapedChar_pair hhigh hlow hne, hcode, Char.ofNat_toNat]

theorem length_codeUnitEscape {n : Nat} (h : n < 0x10000) : (codeUnitEscape n).length = 6 := by
  rw [codeUnitEscape, hexDigits_four h]
  rfl

/-- The four ways to write a character. -/
theorem escapeChar_cases (c : Char) :
    (∃ e, simpleEscape? e = some c ∧ e.toNat < 0x80 ∧ Value.escapeChar c = ['\\', e]) ∨
    (c ≠ '"' ∧ c ≠ '\\' ∧ 0x20 ≤ c.toNat ∧ c.toNat < 0x80 ∧ Value.escapeChar c = [c]) ∨
    (c.toNat < 0x10000 ∧ Value.escapeChar c = codeUnitEscape c.toNat) ∨
    (0x10000 ≤ c.toNat ∧ Value.escapeChar c = surrogateEscape c.toNat) := by
  have hcode : ∀ {k}, c.toNat = k → c = Char.ofNat k := fun h => by rw [← h, Char.ofNat_toNat]
  generalize h : Value.escapeChar c = text
  unfold Value.escapeChar at h
  dsimp only at h
  split_ifs at h with hmark hfeed hreturn htab hback hform hplain hshort <;> subst h
  · rw [Bool.or_eq_true, beq_iff_eq, beq_iff_eq] at hmark
    rcases hmark with rfl | rfl <;> exact .inl ⟨_, rfl, by decide, rfl⟩
  · exact .inl ⟨'n', by rw [beq_iff_eq.1 hfeed]; rfl, by decide, rfl⟩
  · exact .inl ⟨'r', by rw [beq_iff_eq.1 hreturn]; rfl, by decide, rfl⟩
  · exact .inl ⟨'t', by rw [beq_iff_eq.1 htab]; rfl, by decide, rfl⟩
  · exact .inl ⟨'b', by rw [hcode (beq_iff_eq.1 hback)]; rfl, by decide, rfl⟩
  · exact .inl ⟨'f', by rw [hcode (beq_iff_eq.1 hform)]; rfl, by decide, rfl⟩
  · rw [Bool.and_eq_true, decide_eq_true_eq, decide_eq_true_eq] at hplain
    rw [Bool.or_eq_true, beq_iff_eq, beq_iff_eq, not_or] at hmark
    exact .inr (.inl ⟨hmark.1, hmark.2, hplain.1, by omega, rfl⟩)
  · exact .inr (.inr (.inl ⟨hshort, rfl⟩))
  · exact .inr (.inr (.inr ⟨Nat.not_lt.1 hshort, rfl⟩))

/-- Characters that one byte of UTF-8 can hold. -/
def IsAscii (s : List Char) : Prop := ∀ c ∈ s, c.toNat < 0x80

theorem IsAscii.append {s t : List Char} (hs : IsAscii s) (ht : IsAscii t) : IsAscii (s ++ t) :=
  List.forall_mem_append.2 ⟨hs, ht⟩

theorem IsAscii.cons {c : Char} {s : List Char} (hc : c.toNat < 0x80) (hs : IsAscii s) :
    IsAscii (c :: s) := List.forall_mem_cons.2 ⟨hc, hs⟩

theorem isAscii_codeUnitEscape {n : Nat} (h : n < 0x10000) : IsAscii (codeUnitEscape n) := by
  have hdigit : ∀ k < 16, (Nat.digitChar k).toNat < 0x80 := by decide
  have hlead : n / 16 / 16 / 16 < 16 := by omega
  have hmod : ∀ k, k % 16 < 16 := fun k => Nat.mod_lt k (by decide)
  rw [codeUnitEscape, hexDigits_four h]
  simp [IsAscii, hdigit, hlead, hmod]

theorem isAscii_escapeChar (c : Char) : IsAscii (Value.escapeChar c) := by
  rcases escapeChar_cases c with ⟨e, -, he, h⟩ | ⟨-, -, -, hc, h⟩ | ⟨hc, h⟩ | ⟨hc, h⟩
  · rw [h]
    exact .cons (by decide) (.cons he nofun)
  · rw [h]
    exact .cons hc nofun
  · rw [h]
    exact isAscii_codeUnitEscape hc
  · have hlast := toNat_cases c
    rw [h]
    exact (isAscii_codeUnitEscape (by omega)).append (isAscii_codeUnitEscape (by omega))

theorem isAscii_quotedText (s : String) : IsAscii (quotedText s) := by
  have hbody : IsAscii (s.toList.flatMap Value.escapeChar) := by
    intro c hc
    obtain ⟨d, -, hd⟩ := List.mem_flatMap.1 hc
    exact isAscii_escapeChar d c hd
  exact .append (.cons (by decide) hbody) (.cons (by decide) nofun)

variable {start done : List Char} {taken : Nat}

theorem unquote_skip (start : List Char) (taken skip : Nat) (done s : List Char) :
    unquote start taken skip done s = unquote start (taken + skip) 0 done (s.drop skip) := by
  induction skip generalizing taken s with
  | zero => rfl
  | succ skip ih =>
    cases s with
    | nil => rw [List.drop_nil, unquote, unquote]
    | cons c s => rw [unquote, ih, List.drop_succ_cons, Nat.add_right_comm, Nat.add_assoc]

/-- A unit may complete a pair with the one whose escape follows. -/
theorem unquote_codeUnitEscape {n : Nat} (h : n < 0x10000) (hne : rest ≠ []) :
    unquote start taken 0 done (codeUnitEscape n ++ rest) =
      unquote start (taken + (6 + (escapedChar n rest).2)) 0 ((escapedChar n rest).1 :: done)
        (rest.drop (escapedChar n rest).2) := by
  have hlength : (hexDigits 4 n).length = 4 := by
    rw [hexDigits_four h]
    rfl
  have hdigits : (hexDigits 4 n ++ rest).drop 4 = rest := List.drop_left' hlength
  have hafter : ∀ extra, ('u' :: (hexDigits 4 n ++ rest)).drop (5 + extra) = rest.drop extra := by
    intro extra
    rw [← List.drop_drop, List.drop_succ_cons, hdigits]
  rw [codeUnitEscape, List.cons_append, List.cons_append, unquote, if_neg (by decide),
    if_neg (by decide), if_pos (by decide)]
  dsimp only
  rw [codeUnit?_hexDigits h hne, hdigits]
  dsimp only
  rw [unquote_skip, hafter, Nat.add_assoc, ← Nat.add_assoc 1 5]

theorem unquote_simpleEscape {e c : Char} (he : simpleEscape? e = some c) (rest : List Char) :
    unquote start taken 0 done ('\\' :: e :: rest) =
      unquote start (taken + 2) 0 (c :: done) rest := by
  have hu : e = 'u' → False := by
    rintro rfl
    contradiction
  rw [unquote.eq_5 _ _ _ _ _ _ hu, if_neg (by decide), if_neg (by decide), if_pos (by decide), he]
  rfl

theorem unquote_plain {c : Char} (hquote : c ≠ '"') (hslash : c ≠ '\\') (h : 0x20 ≤ c.toNat)
    (rest : List Char) :
    unquote start taken 0 done (c :: rest) = unquote start (taken + 1) 0 (c :: done) rest := by
  have hquote' : ¬ (c == '"') := by simpa using hquote
  have hslash' : ¬ (c == '\\') := by simpa using hslash
  rw [unquote.eq_def]
  dsimp only
  rw [if_neg hquote', if_neg (Nat.not_lt.2 h), if_neg hslash']

/-- Whatever its escape is, a character is read as itself. -/
theorem unquote_escapeChar (c : Char) (hne : rest ≠ []) :
    unquote start taken 0 done (Value.escapeChar c ++ rest) =
      unquote start (taken + (Value.escapeChar c).length) 0 (c :: done) rest := by
  rcases escapeChar_cases c with ⟨e, he, -, h⟩ | ⟨hquote, hslash, hn, -, h⟩ | ⟨hn, h⟩ | ⟨hn, h⟩
  · rw [h]
    exact unquote_simpleEscape he rest
  · rw [h]
    exact unquote_plain hquote hslash hn rest
  · rw [h, unquote_codeUnitEscape hn hne, escapedChar_toNat, length_codeUnitEscape hn]
    rfl
  · -- The first unit takes the escape of the second along.
    have hc := toNat_cases c
    have hhigh : 0xD800 + (c.toNat - 0x10000) / 0x400 < 0x10000 := by omega
    have hlow : 0xDC00 + (c.toNat - 0x10000) % 0x400 < 0x10000 := by omega
    rw [h, surrogateEscape, List.length_append, length_codeUnitEscape hhigh,
      length_codeUnitEscape hlow, List.append_assoc,
      unquote_codeUnitEscape hhigh (List.append_ne_nil_of_right_ne_nil _ hne),
      escapedChar_surrogates hn hne, List.drop_left' (length_codeUnitEscape hlow)]

theorem unquote_escaped (start : List Char) (taken : Nat) (done s rest : List Char) :
    unquote start taken 0 done (s.flatMap Value.escapeChar ++ '"' :: rest) =
      .ok (String.ofList (done.reverse ++ s), taken + (s.flatMap Value.escapeChar).length + 1) := by
  induction s generalizing taken done with
  | nil =>
    rw [List.flatMap_nil, List.nil_append, unquote.eq_def, List.append_nil]
    rfl
  | cons c s ih =>
    have hne : s.flatMap Value.escapeChar ++ '"' :: rest ≠ [] :=
      List.append_ne_nil_of_right_ne_nil _ (List.cons_ne_nil _ _)
    rw [List.flatMap_cons, List.append_assoc, unquote_escapeChar c hne, ih, List.reverse_cons,
      List.append_assoc, List.singleton_append, List.length_append, Nat.add_assoc taken]

theorem read_quotedText (s : String) (rest : List Char) :
    Lexeme.read (quotedText s ++ rest) = (.string s, (quotedText s).length) := by
  have hbody := unquote_escaped (quotedText s ++ rest) 1 [] s.toList rest
  have htext : quotedText s ++ rest =
      '"' :: (s.toList.flatMap Value.escapeChar ++ '"' :: rest) := by
    rw [quotedText, List.append_assoc]
    rfl
  rw [htext] at hbody ⊢
  rw [Lexeme.read.eq_7]
  rw [hbody, List.reverse_nil, List.nil_append, String.ofList_toList]
  rw [quotedText, List.length_append, List.length_cons, Nat.add_comm 1]
  rfl

end DependencyAudit.Json
