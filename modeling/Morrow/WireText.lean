import Morrow.ByteCodec
import Morrow.Text

/-!
# Texts on the wire

The lines of a text protocol are words with white space between them, and a block of
headers is made of lines that end in a carriage return and a line feed and have a colon
in them. Numbers are decimal, and bytes that are no text are written in hexadecimal. What
was written word by word and line by line is read back; the readers take more than what
is written, as `str::parse` takes a plus sign and leading zeros.
-/

namespace Morrow.Text

open ByteCodec List

/-- `str::eq_ignore_ascii_case`. -/
def eqIgnoreAsciiCase (left right : String) : Bool :=
  decide (left.toList.map Char.toLower = right.toList.map Char.toLower)

/-! ### Words -/

variable (text : String)

/-- `str::split_whitespace`. -/
def splitWhitespace : List String :=
  ((text.toList.splitOnP isWhitespace).filter (· ≠ [])).map String.ofList

/-- A text that is not empty and has no white space in it. -/
def IsWord : Prop := text ≠ "" ∧ ∀ symbol ∈ text.toList, isWhitespace symbol = false

instance (text : String) : Decidable (IsWord text) :=
  decidable_of_iff (text ≠ "" ∧ text.toList.any isWhitespace = false) (by simp [IsWord])

theorem IsWord.append_left {front : String} (word : IsWord front) {rest : String}
    (plain : ∀ symbol ∈ rest.toList, isWhitespace symbol = false) : IsWord (front ++ rest) := by
  constructor
  · intro empty
    exact word.1 (String.append_eq_empty_iff.mp empty).1
  · intro symbol member
    rw [String.toList_append] at member
    rcases mem_append.mp member with first | later
    · exact word.2 symbol first
    · exact plain symbol later

theorem splitWhitespace_of_isWord {text : String} (word : IsWord text) :
    splitWhitespace text = [text] := by
  rw [splitWhitespace, splitOnP_eq_singleton word.2, filter_cons_of_pos (by simpa using word.1),
    filter_nil, map_singleton, String.ofList_toList]

/-- The words before and after a blank. -/
theorem splitWhitespace_blank (front rest : String) :
    splitWhitespace (front ++ " " ++ rest) = splitWhitespace front ++ splitWhitespace rest := by
  have text : (front ++ " " ++ rest).toList = front.toList ++ ' ' :: rest.toList := by simp
  rw [splitWhitespace, text, splitOnP_append_cons _ _ (by decide), filter_append,
    map_append]
  rfl

theorem splitOnP_plain {α : Type} {separates : α → Bool} {symbols part : List α}
    (among : part ∈ symbols.splitOnP separates) {symbol : α} (member : symbol ∈ part) :
    separates symbol = false := by
  induction symbols generalizing part with
  | nil =>
    rw [splitOnP_nil, mem_singleton] at among
    rw [among] at member
    cases member
  | cons first symbols ih =>
    rw [splitOnP_cons_eq_if_modifyHead] at among
    by_cases ends : separates first = true
    · rw [if_pos ends] at among
      rcases mem_cons.mp among with rfl | later
      · cases member
      · exact ih later member
    · rw [if_neg ends] at among
      obtain ⟨head, tail, parts⟩ := exists_cons_of_ne_nil (splitOnP_ne_nil separates symbols)
      rw [parts] at among
      rcases mem_cons.mp among with rfl | later
      · rcases mem_cons.mp member with rfl | further
        · exact Bool.eq_false_iff.mpr ends
        · exact ih (parts ▸ mem_cons_self) further
      · exact ih (parts ▸ mem_cons_of_mem _ later) member

theorem isWord_of_mem_splitWhitespace {text word : String} (among : word ∈ splitWhitespace text) :
    IsWord word := by
  obtain ⟨part, kept, rfl⟩ := mem_map.mp among
  obtain ⟨listed, nonempty⟩ := mem_filter.mp kept
  constructor
  · intro empty
    have none : part = [] := by simpa using congrArg String.toList empty
    simp [none] at nonempty
  · intro symbol member
    rw [String.toList_ofList] at member
    exact splitOnP_plain listed member

/-- Words with a blank between them. -/
def joinWords : List String → String
  | [] => ""
  | [word] => word
  | word :: second :: words => word ++ " " ++ joinWords (second :: words)

/-- Words with nothing in them are lost. -/
theorem splitWhitespace_joinWords {words : List String}
    (plain : ∀ word ∈ words, ∀ symbol ∈ word.toList, isWhitespace symbol = false) :
    splitWhitespace (joinWords words) = words.filter (· ≠ "") := by
  have single : ∀ word : String, (∀ symbol ∈ word.toList, isWhitespace symbol = false) →
      splitWhitespace word = [word].filter (· ≠ "") := by
    intro word inside
    by_cases empty : word = ""
    · rw [empty]
      rfl
    · rw [splitWhitespace_of_isWord ⟨empty, inside⟩, filter_cons_of_pos (by simpa using empty),
        filter_nil]
  induction words with
  | nil => rfl
  | cons word words ih =>
    rw [forall_mem_cons] at plain
    cases words with
    | nil => exact single word plain.1
    | cons second words =>
      rw [joinWords, splitWhitespace_blank, ih plain.2, single word plain.1,
        ← filter_append, singleton_append]

theorem lineFeed_notMem_joinWords {words : List String}
    (plain : ∀ word ∈ words, ∀ symbol ∈ word.toList, isWhitespace symbol = false) :
    '\n' ∉ (joinWords words).toList := by
  have lineFree : ∀ word : String, (∀ symbol ∈ word.toList, isWhitespace symbol = false) →
      '\n' ∉ word.toList := fun word inside member => absurd (inside '\n' member) (by decide)
  induction words with
  | nil => simp [joinWords]
  | cons word words ih =>
    rw [forall_mem_cons] at plain
    cases words with
    | nil => exact lineFree word plain.1
    | cons second words =>
      rw [joinWords, String.toList_append, String.toList_append, mem_append, mem_append]
      rintro ((first | blank) | later)
      · exact lineFree word plain.1 first
      · exact absurd blank (by decide)
      · exact ih plain.2 later

/-! ### Trimming -/

/-- `str::trim`. -/
def trim (symbols : List Char) : List Char :=
  ((symbols.dropWhile isWhitespace).reverse.dropWhile isWhitespace).reverse

/-- There is no white space at either end. -/
def Trimmed (symbols : List Char) : Prop :=
  (∀ symbol ∈ symbols.head?, isWhitespace symbol = false) ∧
    ∀ symbol ∈ symbols.getLast?, isWhitespace symbol = false

theorem dropWhile_of_head {α : Type} {drops : α → Bool} {symbols : List α}
    (kept : ∀ symbol ∈ symbols.head?, drops symbol = false) :
    symbols.dropWhile drops = symbols := by
  cases symbols with
  | nil => rfl
  | cons symbol symbols => rw [dropWhile_cons_of_neg (by simp [kept symbol rfl])]

variable {symbols : List Char}

theorem trim_of_trimmed (trimmed : Trimmed symbols) : trim symbols = symbols := by
  have last : ∀ symbol ∈ symbols.reverse.head?, isWhitespace symbol = false := by
    rw [head?_reverse]
    exact trimmed.2
  rw [trim, dropWhile_of_head trimmed.1, dropWhile_of_head last, reverse_reverse]

theorem trim_front (symbols : List Char) : trim symbols <+: symbols.dropWhile isWhitespace := by
  rw [← reverse_suffix, trim, reverse_reverse]
  exact dropWhile_suffix isWhitespace

theorem head_dropWhile {α : Type} {drops : α → Bool} (symbols : List α) :
    ∀ symbol ∈ (symbols.dropWhile drops).head?, drops symbol = false := by
  induction symbols with
  | nil => exact fun _ none => nomatch none
  | cons first symbols ih =>
    by_cases dropped : drops first = true
    · rw [dropWhile_cons_of_pos dropped]
      exact ih
    · rw [dropWhile_cons_of_neg dropped]
      rintro symbol ⟨⟩
      exact Bool.eq_false_iff.mpr dropped

theorem trimmed_trim (symbols : List Char) : Trimmed (trim symbols) := by
  constructor
  · intro symbol first
    obtain ⟨rest, whole⟩ := head?_eq_some_iff.mp first
    obtain ⟨tail, front⟩ := trim_front symbols
    apply head_dropWhile symbols symbol
    rw [← front, whole]
    rfl
  · rw [trim, getLast?_reverse]
    exact head_dropWhile _

theorem trim_blank (symbols : List Char) : trim (' ' :: symbols) = trim symbols := rfl

theorem trim_within (symbols : List Char) : trim symbols <:+: symbols :=
  (trim_front symbols).isInfix.trans (symbols.dropWhile_suffix isWhitespace).isInfix

theorem trimmed_of_plain (plain : ∀ symbol ∈ symbols, isWhitespace symbol = false) :
    Trimmed symbols :=
  ⟨fun symbol head => plain symbol (mem_of_mem_head? head),
    fun symbol last => plain symbol (mem_of_mem_getLast? last)⟩

/-! ### Lines -/

/-- `split("\r\n")`. -/
def splitCrlf : List Char → List (List Char)
  | [] => [[]]
  | '\r' :: '\n' :: rest => [] :: splitCrlf rest
  | symbol :: rest => match splitCrlf rest with
    | [] => [[symbol]]
    | line :: lines => (symbol :: line) :: lines

/-- A part of a line. -/
def InLine (symbols : List Char) : Prop := ¬ ['\r', '\n'] <:+: symbols

theorem splitCrlf_ne_nil (symbols : List Char) : splitCrlf symbols ≠ [] := by
  fun_cases splitCrlf symbols <;> simp

variable {symbol : Char} {line : List Char} {lines : List (List Char)}

theorem splitCrlf_cons {rest : List Char} (inside : ¬ ['\r', '\n'] <+: symbol :: rest)
    (parts : splitCrlf rest = line :: lines) :
    splitCrlf (symbol :: rest) = (symbol :: line) :: lines := by
  rw [splitCrlf, parts]
  rintro following rfl rfl
  exact inside ⟨following, rfl⟩

/-- The first line ends at the first line end. -/
theorem splitCrlf_append (inside : InLine line) (rest : List Char) :
    splitCrlf (line ++ '\r' :: '\n' :: rest) = line :: splitCrlf rest := by
  induction line with
  | nil => rw [nil_append, splitCrlf]
  | cons symbol line ih =>
    have later : InLine line := fun found => inside (found.trans (suffix_cons _ _).isInfix)
    apply splitCrlf_cons ?_ (ih later)
    rintro ⟨tail, whole⟩
    cases line with
    | nil => simp at whole
    | cons second line =>
      obtain ⟨rfl, following⟩ := cons.inj whole
      obtain ⟨rfl, -⟩ := cons.inj following
      exact inside ⟨[], line, rfl⟩

theorem splitCrlf_front (parts : splitCrlf symbols = line :: lines) : line <+: symbols := by
  fun_induction splitCrlf symbols generalizing line lines with
  | case1 | case2 =>
    obtain ⟨rfl, -⟩ := cons.inj parts
    exact nil_prefix
  | case3 symbol rest _ none => exact absurd none (splitCrlf_ne_nil rest)
  | case4 symbol rest _ first others split ih =>
    obtain ⟨rfl, -⟩ := cons.inj parts
    exact cons_prefix_cons.mpr ⟨rfl, ih split⟩

theorem inLine_of_mem_splitCrlf (among : line ∈ splitCrlf symbols) : InLine line := by
  have empty : InLine [] := by
    intro found
    cases infix_nil.mp found
  fun_induction splitCrlf symbols generalizing line with
  | case1 => rwa [mem_singleton.mp among]
  | case2 rest ih =>
    rcases mem_cons.mp among with rfl | later
    · exact empty
    · exact ih later
  | case3 symbol rest _ none => exact absurd none (splitCrlf_ne_nil rest)
  | case4 symbol rest inside first others split ih =>
    rw [split] at ih
    rcases mem_cons.mp among with rfl | later
    · intro found
      rcases infix_cons_iff.mp found with front | further
      · -- The rest starts as its first line does, so the line end would have been found here.
        have whole : ['\r', '\n'] <+: symbol :: rest :=
          front.trans (cons_prefix_cons.mpr ⟨rfl, splitCrlf_front split⟩)
        obtain ⟨tail, same⟩ := whole
        obtain ⟨rfl, following⟩ := cons.inj same
        exact inside tail rfl following.symm
      · exact ih mem_cons_self further
    · exact ih (mem_cons_of_mem _ later)

theorem InLine.within {part : List Char} (inside : InLine line) (among : part <:+: line) :
    InLine part := fun found => inside (found.trans among)

variable {left right : List Char} {separator : Char}

/-- Neither half of a line end stands on its side of the separator. -/
theorem InLine.append_cons (first : InLine left) (second : InLine right)
    (notReturn : separator ≠ '\r') (notFeed : separator ≠ '\n') :
    InLine (left ++ separator :: right) := by
  induction left with
  | nil =>
    intro found
    rcases infix_cons_iff.mp found with ⟨tail, same⟩ | later
    · exact notReturn (cons.inj same).1.symm
    · exact second later
  | cons symbol left ih =>
    have rest : InLine left := first.within (suffix_cons _ _).isInfix
    intro found
    rcases infix_cons_iff.mp found with ⟨tail, same⟩ | later
    · obtain ⟨rfl, following⟩ := cons.inj same
      cases left with
      | nil => exact notFeed (cons.inj following).1.symm
      | cons other left =>
        obtain ⟨rfl, -⟩ := cons.inj following
        exact first ⟨[], left, rfl⟩
    · exact ih rest later

theorem inLine_of_plain (plain : ∀ symbol ∈ symbols, isWhitespace symbol = false) :
    InLine symbols := by
  intro found
  have blank := plain '\r' (found.mem mem_cons_self)
  exact absurd blank (by decide)

/-- `split_once`. -/
def splitOnce (separator : Char) (symbols : List Char) : Option (List Char × List Char) :=
  match symbols.dropWhile (· ≠ separator) with
  | [] => none
  | _ :: rest => some (symbols.takeWhile (· ≠ separator), rest)

theorem splitOnce_append (absent : separator ∉ left) (right : List Char) :
    splitOnce separator (left ++ separator :: right) = some (left, right) := by
  have kept : ∀ symbol ∈ left, decide (symbol ≠ separator) = true := by
    intro symbol member
    exact decide_eq_true fun same => absent (same ▸ member)
  have dropped : (left ++ separator :: right).dropWhile (· ≠ separator) = separator :: right := by
    rw [dropWhile_append_of_pos kept, dropWhile_cons_of_neg (by simp)]
  have taken : (left ++ separator :: right).takeWhile (· ≠ separator) = left := by
    rw [takeWhile_append_of_pos kept, takeWhile_cons_of_neg (by simp), append_nil]
  rw [splitOnce, dropped]
  exact congrArg (fun taken => some (taken, right)) taken

theorem splitOnce_eq_some (split : splitOnce separator symbols = some (left, right)) :
    symbols = left ++ separator :: right ∧ separator ∉ left := by
  have whole := takeWhile_append_dropWhile (p := (· ≠ separator)) (l := symbols)
  unfold splitOnce at split
  split at split
  · cases split
  · rename_i found rest dropped
    obtain ⟨rfl, rfl⟩ := Prod.mk.inj (Option.some.inj split)
    have same : found = separator := by
      have stopped : decide (found ≠ separator) = false :=
        head_dropWhile symbols found (by rw [dropped]; rfl)
      simpa using stopped
    rw [dropped, same] at whole
    refine ⟨whole.symm, fun member => ?_⟩
    have kept := mem_takeWhile_imp member
    simp at kept

/-! ### Numbers -/

/-- `str::parse` of an unsigned number up to a largest one: digits, after at most one plus
sign. -/
def parseUnsigned (largest : ℕ) (text : String) : Option ℕ :=
  let digits := match text.toList with
    | '+' :: rest => rest
    | symbols => symbols
  if digits ≠ [] ∧ digits.all Char.isDigit = true then
    let value := Nat.ofDigitChars 10 digits 0
    if value ≤ largest then some value else none
  else none

/-- What is written for a number is read as the number, unless it is too large. -/
theorem parseUnsigned_toString (largest value : ℕ) :
    parseUnsigned largest (toString value) = if value ≤ largest then some value else none := by
  have written : (toString value).toList = Nat.toDigits 10 value := by
    rw [Nat.toString_eq_repr, Nat.toList_repr]
  have digits : (Nat.toDigits 10 value).all Char.isDigit = true := by
    rw [all_eq_true]
    exact fun symbol member => Nat.isDigit_of_mem_toDigits (by decide) (by decide) member
  have unsigned : (match Nat.toDigits 10 value with
      | '+' :: rest => rest
      | symbols => symbols) = Nat.toDigits 10 value := by
    split
    · rename_i rest shape
      rw [shape] at digits
      exact absurd (all_eq_true.mp digits '+' mem_cons_self) (by decide)
    · rfl
  simp only [parseUnsigned, written, unsigned]
  rw [if_pos ⟨Nat.toDigits_ne_nil, digits⟩, Nat.ofDigitChars_ten_toDigits]

theorem not_isWhitespace_of_isDigit (digit : symbol.isDigit = true) :
    isWhitespace symbol = false := by
  simp only [Char.isDigit, Bool.and_eq_true, decide_eq_true_eq, UInt32.le_iff_toNat_le] at digit
  have low : 48 ≤ symbol.toNat := digit.1
  have high : symbol.toNat ≤ 57 := digit.2
  simp only [isWhitespace, Bool.or_eq_false_iff, Bool.and_eq_false_iff, decide_eq_false_iff_not,
    beq_eq_false_iff_ne]
  omega

theorem isWord_toString (value : ℕ) : IsWord (toString value) := by
  have written : (toString value).toList = Nat.toDigits 10 value := by
    rw [Nat.toString_eq_repr, Nat.toList_repr]
  constructor
  · intro empty
    rw [empty] at written
    exact Nat.toDigits_ne_nil written.symm
  · intro symbol member
    rw [written] at member
    have digit := Nat.isDigit_of_mem_toDigits (by decide) (by decide) member
    exact not_isWhitespace_of_isDigit digit

/-! ### Bytes as text -/

/-- The value of a hexadecimal digit, of either case. -/
def hexValue (byte : UInt8) : Option ℕ :=
  if 48 ≤ byte ∧ byte ≤ 57 then some (byte.toNat - 48)
  else if 97 ≤ byte ∧ byte ≤ 102 then some (byte.toNat - 87)
  else if 65 ≤ byte ∧ byte ≤ 70 then some (byte.toNat - 55)
  else none

/-- The bytes of a text are single letters of ASCII, or none of them is one. -/
theorem mem_utf8EncodeChar {byte : UInt8} (member : byte ∈ String.utf8EncodeChar symbol)
    (ascii : byte.toNat < 128) :
    symbol.toNat = byte.toNat := by
  have value : symbol.val.toNat = symbol.toNat := rfl
  unfold String.utf8EncodeChar at member
  dsimp only at member
  split at member
  · rw [mem_singleton.mp member, UInt8.toNat_ofNat']
    omega
  · split at member
    · simp only [mem_cons, not_mem_nil, or_false] at member
      rcases member with rfl | rfl <;> rw [UInt8.toNat_ofNat'] at ascii <;> omega
    · split at member
      · simp only [mem_cons, not_mem_nil, or_false] at member
        rcases member with rfl | rfl | rfl <;> rw [UInt8.toNat_ofNat'] at ascii <;> omega
      · simp only [mem_cons, not_mem_nil, or_false] at member
        rcases member with rfl | rfl | rfl | rfl <;> rw [UInt8.toNat_ofNat'] at ascii <;> omega

theorem utf8_eq_flatMap : utf8 text = text.toList.flatMap String.utf8EncodeChar := by
  rw [utf8, ← String.utf8Encode_toList, utf8Encode]
  simp

/-- A line feed in the bytes is a line feed in the text. -/
theorem lineFeed_of_mem_utf8 {text : String} (member : (10 : UInt8) ∈ utf8 text) :
    '\n' ∈ text.toList := by
  rw [utf8_eq_flatMap] at member
  obtain ⟨symbol, among, inside⟩ := mem_flatMap.mp member
  have same : symbol = '\n' := Char.toNat_inj.mp (mem_utf8EncodeChar inside (by decide))
  rwa [← same]

end Morrow.Text
