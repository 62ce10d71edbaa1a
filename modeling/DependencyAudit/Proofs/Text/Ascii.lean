import DependencyAudit.Disk

/-!
# ASCII texts

A file of ASCII bytes without a carriage return is read as it stands, one character for each byte.
-/

namespace DependencyAudit

namespace Text

theorem Utf8.charAt_ascii {b : UInt8} (h : b < 0x80) (bs : List UInt8) :
    Utf8.charAt b bs = .ok (Char.ofNat b.toNat, 0) := by
  unfold charAt lead?
  rw [if_pos h]
  rfl

theorem Utf8.decodeFrom_ascii {bs : List UInt8} (h : ∀ b ∈ bs, b < 0x80) (position : Nat)
    (done : List Char) :
    Utf8.decodeFrom position 0 done bs =
      .ok (done.reverse ++ bs.map fun b => Char.ofNat b.toNat) := by
  induction bs generalizing position done with
  | nil => simp [decodeFrom]
  | cons b bs ih =>
    rw [List.forall_mem_cons] at h
    rw [decodeFrom, charAt_ascii h.1]
    change decodeFrom (position + 1) 0 (Char.ofNat b.toNat :: done) bs = _
    rw [ih h.2, List.reverse_cons, List.append_assoc]
    rfl

theorem unifyNewlines_of_no_return {s : List Char} (h : '\r' ∉ s) : unifyNewlines s = s := by
  have hzip : ∀ (s before : List Char), s.length ≤ before.length → '\r' ∉ s → '\r' ∉ before →
      (s.zip before).filterMap (fun p =>
        if p.1 == '\n' && p.2 == '\r' then none
        else some (if p.1 == '\r' then '\n' else p.1)) = s := by
    intro s
    induction s with
    | nil => exact fun _ _ _ _ => rfl
    | cons c s ih =>
      intro before hlength hs hbefore
      cases before with
      | nil => contradiction
      | cons b before =>
        rw [List.mem_cons, not_or] at hs hbefore
        have hb : (b == '\r') = false := beq_eq_false_iff_ne.2 (Ne.symm hbefore.1)
        have hc : (c == '\r') = false := beq_eq_false_iff_ne.2 (Ne.symm hs.1)
        rw [List.zip_cons_cons, List.filterMap_cons]
        simp only [hb, hc, Bool.and_false, Bool.false_eq_true, if_false]
        rw [ih before (Nat.le_of_succ_le_succ hlength) hs.2 hbefore.2]
  refine hzip s (' ' :: s) (Nat.le_succ _) h ?_
  rw [List.mem_cons, not_or]
  exact ⟨by decide, h⟩

end Text

theorem Disk.decodeText_ascii {bs : List UInt8}
    (h : ∀ b ∈ bs, b < 0x80 ∧ Char.ofNat b.toNat ≠ '\r') :
    Disk.decodeText bs = .ok (String.ofList (bs.map fun b => Char.ofNat b.toNat)) := by
  have hreturn : '\r' ∉ bs.map fun b => Char.ofNat b.toNat := by
    rw [List.mem_map]
    rintro ⟨b, hb, hc⟩
    exact (h b hb).2 hc
  have hdecode := Text.Utf8.decodeFrom_ascii (fun b hb => (h b hb).1) 0 []
  unfold decodeText Text.Utf8.decode
  rw [hdecode]
  exact congrArg (fun s => Except.ok (String.ofList s)) (Text.unifyNewlines_of_no_return hreturn)

/-- The bytes of ASCII characters are read as these characters. -/
theorem Disk.decodeText_map_toUInt8 {s : List Char} (h : ∀ c ∈ s, c.toNat < 0x80 ∧ c ≠ '\r') :
    Disk.decodeText (s.map fun c => c.toNat.toUInt8) = .ok (String.ofList s) := by
  have hback : ∀ c ∈ s, Char.ofNat c.toNat.toUInt8.toNat = c := by
    intro c hc
    have hsize : c.toNat < 256 := Nat.lt_trans (h c hc).1 (by decide)
    rw [Nat.toUInt8, UInt8.toNat_ofNat', Nat.mod_eq_of_lt hsize, Char.ofNat_toNat]
  have hbytes : ∀ b ∈ s.map fun c => c.toNat.toUInt8, b < 0x80 ∧ Char.ofNat b.toNat ≠ '\r' := by
    intro b hb
    obtain ⟨c, hc, rfl⟩ := List.mem_map.1 hb
    rw [hback c hc]
    refine ⟨?_, (h c hc).2⟩
    have hsize : c.toNat < 256 := Nat.lt_trans (h c hc).1 (by decide)
    rw [UInt8.lt_iff_toNat_lt, Nat.toUInt8, UInt8.toNat_ofNat', Nat.mod_eq_of_lt hsize]
    exact (h c hc).1
  rw [Disk.decodeText_ascii hbytes, List.map_map]
  exact congrArg (fun t => Except.ok (String.ofList t))
    ((List.map_congr_left hback).trans (List.map_id s))

end DependencyAudit
