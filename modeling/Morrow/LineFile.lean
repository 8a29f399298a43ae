import Morrow.FramedLog

/-!
# Files of lines

A text file is written one line at a time, each with a newline behind it, and read
by splitting it at the newlines. The last line may lack its newline: a cut of the
file leaves whole lines and the front part of one more.
-/

namespace Morrow.LineFile

open ByteCodec FramedLog List

/-- The byte `\n`. -/
def newline : UInt8 := 10

/-- The byte `\r`. -/
def carriageReturn : UInt8 := 13

/-- A newline may be written with a carriage return before it. -/
def dropReturn (line : Bytes) : Bytes :=
  if line.getLast? = some carriageReturn then line.dropLast else line

/-- The lines of a file, if some bytes of the first were already read. -/
def linesFrom (current : Bytes) : Bytes → List Bytes
  | [] => if current = [] then [] else [current]
  | byte :: rest =>
    if byte = newline then dropReturn current :: linesFrom [] rest
    else linesFrom (current ++ [byte]) rest

/-- The lines of a file. -/
def lines (file : Bytes) : List Bytes := linesFrom [] file

/-- The bytes can stand on a line of their own. -/
def OneLine (line : Bytes) : Prop := newline ∉ line ∧ carriageReturn ∉ line

instance (line : Bytes) : Decidable (OneLine line) := inferInstanceAs (Decidable (_ ∧ _))

variable {line : Bytes}

theorem OneLine.part {part : Bytes} (one : OneLine line) (front : part <+: line) : OneLine part :=
  ⟨fun inside => one.1 (front.subset inside), fun inside => one.2 (front.subset inside)⟩

theorem dropReturn_of_oneLine (one : OneLine line) : dropReturn line = line :=
  if_neg fun last => one.2 (mem_of_getLast? last)

theorem linesFrom_append {part : Bytes} (inside : newline ∉ part) (current rest : Bytes) :
    linesFrom current (part ++ rest) = linesFrom (current ++ part) rest := by
  induction part generalizing current with
  | nil => rw [nil_append, append_nil]
  | cons byte part ih =>
    rw [mem_cons, not_or] at inside
    rw [cons_append, linesFrom, if_neg (Ne.symm inside.1), ih inside.2,
      append_assoc, singleton_append]

/-- A line with its newline is read back, whatever follows. -/
theorem lines_cons (one : OneLine line) (rest : Bytes) :
    lines (line ++ newline :: rest) = line :: lines rest := by
  rw [lines, linesFrom_append one.1, nil_append, linesFrom, dropReturn_of_oneLine one]
  rfl

/-- The last line may lack its newline. -/
theorem lines_last (inside : newline ∉ line) (nonempty : line ≠ []) : lines line = [line] := by
  have whole := linesFrom_append inside [] []
  rw [append_nil, nil_append, linesFrom, if_neg nonempty] at whole
  exact whole

section Writing

variable {β : Type} (encode : β → Bytes)

/-- A record on its line. -/
def encodeLine (record : β) : Bytes := encode record ++ [newline]

theorem lines_encodeAll {records : List β} (one : ∀ record ∈ records, OneLine (encode record))
    (rest : Bytes) :
    lines (encodeAll (encodeLine encode) records ++ rest) = records.map encode ++ lines rest := by
  induction records with
  | nil => rfl
  | cons record records ih =>
    rw [encodeAll_cons, encodeLine, append_assoc, append_assoc, singleton_append,
      lines_cons (one record mem_cons_self), ih (forall_mem_cons.mp one).2]
    rfl

/-! ### Cutting a file of lines -/

/-- The offset behind a number of lines. -/
def lineEnd (records : List β) (count : ℕ) : ℕ :=
  (encodeAll (encodeLine encode) (records.take count)).length

variable {encode} {records : List β} {record : β} {index : ℕ}

theorem encodeAll_take_succ (found : records[index]? = some record) :
    encodeAll (encodeLine encode) (records.take (index + 1)) =
      encodeAll (encodeLine encode) (records.take index) ++ encodeLine encode record := by
  rw [take_add_one, found, encodeAll_append]
  simp only [Option.toList_some, encodeAll_cons, encodeAll_nil, append_nil]

theorem lineEnd_succ (found : records[index]? = some record) :
    lineEnd encode records (index + 1) =
      lineEnd encode records index + (encode record).length + 1 := by
  rw [lineEnd, encodeAll_take_succ found, length_append, encodeLine, length_append]
  rfl

theorem lineEnd_mono (encode : β → Bytes) (records : List β) {first second : ℕ}
    (ordered : first ≤ second) :
    lineEnd encode records first ≤ lineEnd encode records second := by
  obtain ⟨between, rfl⟩ := Nat.exists_eq_add_of_le ordered
  rw [lineEnd, lineEnd, take_add, encodeAll_append, length_append]
  exact Nat.le_add_right _ _

theorem lineEnd_length (records : List β) :
    lineEnd encode records records.length = (encodeAll (encodeLine encode) records).length := by
  rw [lineEnd, take_length]

/-- The file from the first lines on. -/
theorem encodeAll_eq_take (records : List β) (count : ℕ) :
    encodeAll (encodeLine encode) records =
      encodeAll (encodeLine encode) (records.take count) ++
        encodeAll (encodeLine encode) (records.drop count) := by
  rw [← encodeAll_append, take_append_drop]

/-- A cut behind whole lines and inside the next. -/
theorem take_inside (found : records[index]? = some record) {cut : ℕ}
    (inside : cut ≤ (encode record).length) :
    (encodeAll (encodeLine encode) records).take (lineEnd encode records index + cut) =
      encodeAll (encodeLine encode) (records.take index) ++ (encode record).take cut := by
  rw [encodeAll_eq_take records (index + 1), encodeAll_take_succ found, append_assoc,
    lineEnd, take_length_add_append, encodeLine, append_assoc,
    take_append_of_le_length inside]

/-- A cut behind whole lines. -/
theorem take_lineEnd (records : List β) (count : ℕ) :
    (encodeAll (encodeLine encode) records).take (lineEnd encode records count) =
      encodeAll (encodeLine encode) (records.take count) := by
  rw [encodeAll_eq_take records count, lineEnd, take_left]

/-- Every cut of the file falls on a line. -/
theorem exists_line {cut : ℕ} (within : cut < (encodeAll (encodeLine encode) records).length) :
    ∃ index record, records[index]? = some record ∧ lineEnd encode records index ≤ cut ∧
      cut ≤ lineEnd encode records index + (encode record).length := by
  induction records using List.reverseRecOn with
  | nil => simp at within
  | append_singleton records last ih =>
    have same : ∀ index, index ≤ records.length →
        lineEnd encode (records ++ [last]) index = lineEnd encode records index := by
      intro index bounded
      rw [lineEnd, take_append_of_le_length bounded, lineEnd]
    by_cases earlier : cut < (encodeAll (encodeLine encode) records).length
    · obtain ⟨index, record, found, above, below⟩ := ih earlier
      have bounded := (List.getElem?_eq_some_iff.mp found).1
      refine ⟨index, record, ?_, ?_, ?_⟩
      · rw [List.getElem?_append_left bounded, found]
      · rwa [same index bounded.le]
      · rwa [same index bounded.le]
    · refine ⟨records.length, last, List.getElem?_concat_length, ?_, ?_⟩
      · rw [same _ le_rfl, lineEnd_length]
        omega
      · rw [same _ le_rfl, lineEnd_length]
        rw [encodeAll_append, length_append, encodeAll_cons, encodeAll_nil, append_nil,
          encodeLine, length_append] at within
        simp only [length_singleton] at within
        omega

end Writing

end Morrow.LineFile
