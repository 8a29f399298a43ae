import Mathlib

/-!
# Subjects and filters

A subject is a path of tokens separated by slashes. In a filter the token `*`
stands for any one token and `**` for everything that is left, including nothing.
-/

namespace Morrow.Subject

/-- The texts between slashes. Every text has at least one, possibly empty, token. -/
def splitChars : List Char → List (List Char)
  | [] => [[]]
  | letter :: letters =>
    if letter = '/' then [] :: splitChars letters
    else match splitChars letters with
      | [] => [[letter]]
      | token :: tokens => (letter :: token) :: tokens

def split (text : String) : List String := (splitChars text.toList).map String.ofList

/-- Compare filter and subject token by token. -/
def matchTokens : List String → List String → Bool
  | [], [] => true
  | [], _ :: _ => false
  | pattern :: patterns, subject =>
    if pattern = "**" then true
    else match subject with
      | [] => false
      | token :: tokens =>
        if pattern = "*" ∨ pattern = token then matchTokens patterns tokens else false

/-- Whether a filter accepts a subject. -/
def subjectMatches (pattern subject : String) : Bool :=
  matchTokens (split pattern) (split subject)

example : subjectMatches "orders/*/new" "orders/eu/new" = true := by decide

example : subjectMatches "orders/**" "orders" = true := by decide

example : subjectMatches "orders/*" "orders" = false := by decide

end Morrow.Subject
