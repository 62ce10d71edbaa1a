import DependencyAudit.Csv.Record

/-!
# Quoted records

A record may be written with every field between quotation marks and the marks inside doubled. It is
read back as it is, whatever its fields hold and whichever line end follows, as long as no field is
too long.
-/

namespace DependencyAudit.Csv

def quotedChar (c : Char) : List Char := if c = '"' then ['"', '"'] else [c]

def quotedField (field : String) : List Char := '"' :: (field.toList.flatMap quotedChar ++ ['"'])

def quotedFields : Record → List Char
  | [] => []
  | [field] => quotedField field
  | field :: fields => quotedField field ++ ',' :: quotedFields fields

inductive LineEnd where
  | feed
  | returnFeed
  deriving DecidableEq, Repr

def LineEnd.text : LineEnd → List Char
  | feed => ['\n']
  | returnFeed => ['\r', '\n']

/-- A record in writing, each with its line end. -/
abbrev WrittenRecord := Record × LineEnd

def written (records : List WrittenRecord) : List Char :=
  records.flatMap fun r => quotedFields r.1 ++ r.2.text

/-- No field is longer than the limit. -/
def Fits (record : Record) : Prop := ∀ field ∈ record, field.length ≤ fieldLimit

instance (record : Record) : Decidable (Fits record) :=
  inferInstanceAs (Decidable (∀ field ∈ record, field.length ≤ fieldLimit))

variable {fields : List String} {records : List Record} {rest : List Char}

/-- Between the marks a doubled mark is one character, and all others stand for themselves. -/
theorem readFrom_quotedChars (cs : List Char) {field : List Char} {length : Nat}
    (hlength : length + cs.length ≤ fieldLimit) :
    readFrom ⟨.inQuotes, field, length, fields, records⟩ (cs.flatMap quotedChar ++ rest) =
      readFrom ⟨.inQuotes, cs.reverse ++ field, length + cs.length, fields, records⟩ rest := by
  induction cs generalizing field length with
  | nil => rfl
  | cons c cs ih =>
    rw [List.length_cons] at hlength
    have hroom : length < fieldLimit := by omega
    have hnext : readFrom ⟨.inQuotes, field, length, fields, records⟩
          (quotedChar c ++ (cs.flatMap quotedChar ++ rest)) =
        readFrom ⟨.inQuotes, c :: field, length + 1, fields, records⟩
          (cs.flatMap quotedChar ++ rest) := by
      by_cases hc : c = '"'
      · subst hc
        simp [quotedChar, readFrom, State.step, State.addChar, hroom]
      · simp [quotedChar, hc, readFrom, State.step, State.addChar, hroom]
    rw [List.flatMap_cons, List.append_assoc, hnext, ih (by omega), List.reverse_cons,
      List.append_assoc, List.length_cons]
    congr 2
    omega

/-- A position at which a field may start. -/
def Position.AtField (p : Position) : Prop := p = .recordStart ∨ p = .fieldStart

theorem readFrom_quotedField {field : String} {p : Position} (hp : p.AtField)
    (hlength : field.length ≤ fieldLimit) :
    readFrom ⟨p, [], 0, fields, records⟩ (quotedField field ++ rest) =
      readFrom ⟨.afterQuote, field.toList.reverse, field.length, fields, records⟩ rest := by
  have hopen : readFrom ⟨p, [], 0, fields, records⟩ (quotedField field ++ rest) =
      readFrom ⟨.inQuotes, [], 0, fields, records⟩
        (field.toList.flatMap quotedChar ++ '"' :: rest) := by
    rcases hp with rfl | rfl <;> simp [quotedField, readFrom, State.step]
  have hroom : 0 + field.toList.length ≤ fieldLimit := by
    rwa [Nat.zero_add, String.length_toList]
  rw [hopen, readFrom_quotedChars _ hroom, List.append_nil, Nat.zero_add, String.length_toList]
  simp [readFrom, State.step]

/-- Behind the closing mark a comma ends the field. -/
theorem readFrom_comma {field : List Char} {length : Nat} :
    readFrom ⟨.afterQuote, field, length, fields, records⟩ (',' :: rest) =
      readFrom ⟨.fieldStart, [], 0, String.ofList field.reverse :: fields, records⟩ rest := by
  simp [readFrom, State.step, State.endField]

/-- Behind the closing mark a line end ends the record. -/
theorem readFrom_lineEnd (e : LineEnd) {field : List Char} {length : Nat} :
    readFrom ⟨.afterQuote, field, length, fields, records⟩ (e.text ++ rest) =
      readFrom ⟨.recordStart, [], 0, [],
        (String.ofList field.reverse :: fields).reverse :: records⟩ rest := by
  cases e <;>
    simp [LineEnd.text, readFrom, State.step, State.endLine, State.endField, State.endRecord]

theorem readFrom_quotedFields {record : Record} (hne : record ≠ []) (hfits : Fits record)
    {p : Position} (hp : p.AtField) (e : LineEnd) :
    readFrom ⟨p, [], 0, fields, records⟩ (quotedFields record ++ (e.text ++ rest)) =
      readFrom ⟨.recordStart, [], 0, [], (fields.reverse ++ record) :: records⟩ rest := by
  induction record generalizing fields p with
  | nil => contradiction
  | cons field more ih =>
    obtain ⟨hfield, hmore⟩ := List.forall_mem_cons.1 hfits
    cases more with
    | nil =>
      rw [quotedFields, readFrom_quotedField hp hfield, readFrom_lineEnd, List.reverse_reverse,
        String.ofList_toList, List.reverse_cons]
    | cons next more =>
      rw [quotedFields, List.append_assoc, readFrom_quotedField hp hfield, List.cons_append,
        readFrom_comma, ih (List.cons_ne_nil _ _) hmore (.inr rfl), List.reverse_reverse,
        String.ofList_toList, List.reverse_cons, List.append_assoc, List.singleton_append]
      exact List.cons_ne_nil _ _

theorem readFrom_written {lines : List WrittenRecord}
    (h : ∀ line ∈ lines, line.1 ≠ [] ∧ Fits line.1) :
    readFrom ⟨.recordStart, [], 0, [], records⟩ (written lines) =
      ⟨records.reverse ++ lines.map Prod.fst, none⟩ := by
  induction lines generalizing records with
  | nil => simp [written, readFrom, State.finish]
  | cons line lines ih =>
    obtain ⟨⟨hne, hfits⟩, hlines⟩ := List.forall_mem_cons.1 h
    rw [written, List.flatMap_cons, ← written, List.append_assoc,
      readFrom_quotedFields hne hfits (.inl rfl), ih hlines, List.reverse_nil, List.nil_append,
      List.reverse_cons, List.map_cons, List.append_assoc, List.singleton_append]

/-- What is read of quoted records is what was written. -/
theorem read_written {lines : List WrittenRecord}
    (h : ∀ line ∈ lines, line.1 ≠ [] ∧ Fits line.1) :
    read (String.ofList (written lines)) = ⟨lines.map Prod.fst, none⟩ := by
  rw [read, String.toList_ofList]
  exact readFrom_written h

end DependencyAudit.Csv
