import Mathlib

/-!
# Texts

What Rust's `str` and `char` say about characters: white space is a property of Unicode,
letter case is compared for the letters of ASCII only.
-/

namespace Morrow.Text

open List

/-- `char::is_whitespace`. -/
def isWhitespace (symbol : Char) : Bool :=
  let code := symbol.toNat
  (9 ≤ code && code ≤ 13) || code == 0x20 || code == 0x85 || code == 0xa0 || code == 0x1680 ||
    (0x2000 ≤ code && code ≤ 0x200a) || code == 0x2028 || code == 0x2029 || code == 0x202f ||
    code == 0x205f || code == 0x3000

/-- `str::starts_with`. -/
def startsWith (text front : String) : Bool := front.toList.isPrefixOf text.toList

/-- `str::strip_prefix`. -/
def withoutFront (text front : String) : Option String :=
  if startsWith text front then some (String.ofList (text.toList.drop front.toList.length))
  else none

variable {text front : String}

theorem startsWith_iff :
    startsWith text front = true ↔ front.toList <+: text.toList := isPrefixOf_iff_prefix

/-- What is stripped is the front, and what is left follows it. -/
theorem withoutFront_eq_some {rest : String} :
    withoutFront text front = some rest ↔ text = front ++ rest := by
  constructor
  · intro stripped
    unfold withoutFront at stripped
    split at stripped
    · rename_i starts
      obtain ⟨tail, whole⟩ := startsWith_iff.mp starts
      have left : rest.toList = tail := by
        rw [← Option.some.inj stripped, String.toList_ofList, ← whole, drop_left]
      apply String.toList_injective
      rw [String.toList_append, left, whole]
    · cases stripped
  · rintro rfl
    have starts : startsWith (front ++ rest) front = true :=
      startsWith_iff.mpr ⟨rest.toList, by rw [String.toList_append]⟩
    rw [withoutFront, if_pos starts, String.toList_append, drop_left, String.ofList_toList]

/-! ### Parts between separators -/

section Parts

variable {α : Type}

theorem intercalate_append (separators : List α) {left right : List (List α)} (some_ : left ≠ [])
    (others : right ≠ []) : separators.intercalate (left ++ right) =
      separators.intercalate left ++ separators ++ separators.intercalate right := by
  induction left with
  | nil => exact absurd rfl some_
  | cons part parts ih =>
    cases parts with
    | nil =>
      rw [cons_append, nil_append, intercalate_cons_of_ne_nil others, intercalate_singleton]
    | cons second parts =>
      rw [cons_append, cons_append, intercalate_cons_cons,
        ← cons_append, ih (cons_ne_nil _ _),
        intercalate_cons_cons]
      simp only [append_assoc]

variable [DecidableEq α] {separator : α}

/-- The parts of two texts with a separator between them. -/
theorem splitOn_append_cons (left right : List α) :
    (left ++ separator :: right).splitOn separator =
      left.splitOn separator ++ right.splitOn separator :=
  splitOnP_append_cons left right (by simp)

/-- Texts that are closed by a separator are compared part by part. -/
theorem closed_prefix_iff {left right : List α} : left ++ [separator] <+: right ++ [separator] ↔
    left.splitOn separator <+: right.splitOn separator := by
  constructor
  · rintro ⟨rest, whole⟩
    rcases eq_nil_or_concat rest with rfl | ⟨front, last, rfl⟩
    · rw [append_nil] at whole
      rw [append_cancel_right whole]
    · rw [concat_eq_append, ← append_assoc] at whole
      obtain ⟨same, -⟩ := append_inj' whole rfl
      rw [← same, append_assoc, singleton_append, splitOn_append_cons]
      exact prefix_append _ _
  · rintro ⟨rest, whole⟩
    have joins := congrArg ([separator].intercalate ·) whole
    simp only [intercalate_splitOn] at joins
    by_cases none : rest = []
    · rw [none, append_nil, intercalate_splitOn] at joins
      rw [joins]
    · have parts : left.splitOn separator ≠ [] := splitOnP_ne_nil _ _
      rw [intercalate_append _ parts none, intercalate_splitOn] at joins
      rw [← joins, append_assoc]
      exact prefix_append _ _

end Parts

end Morrow.Text
