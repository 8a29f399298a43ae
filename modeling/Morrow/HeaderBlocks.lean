import Morrow.Authorization
import Morrow.Frames
import Morrow.WireText

/-!
# Blocks of headers

The headers of a message travel in a block of lines before its payload, on the way to the
broker as on the way from it. Both sides read the block alike. What was read from a block
can be written into another one and is read back from that.
-/

namespace Morrow.Protocol

open ByteCodec Text List

/-- The headers up to an empty line. -/
def headerLines (frame : String) : List (List Char) → Outcome (List MessageHeader)
  | [] => .ok []
  | line :: lines =>
    if line = [] then .ok []
    else do
      let parts ← okOr ("malformed " ++ frame ++ " header line") (splitOnce ':' line)
      let headers ← headerLines frame lines
      .ok (⟨String.ofList (trim parts.1), String.ofList (trim parts.2)⟩ :: headers)

/-- `parse_headers` of the protocol and of the client, which differ in the name of the
frame; the protocol's error for other text also tells where it is. -/
def parseHeaders (frame : String) (bytes : Bytes) : Outcome (List MessageHeader) := do
  let text ← okOr (frame ++ " headers are not UTF-8") (fromUtf8 bytes)
  ensure ((splitCrlf text.toList).head? = some "MORROW/1.0".toList)
    (frame ++ " headers missing MORROW/1.0 line")
  headerLines frame (splitCrlf text.toList).tail

/-- The first header of a name. -/
def headerValue (headers : List MessageHeader) (name : String) : Option String :=
  (headers.find? fun header => eqIgnoreAsciiCase header.name name).map (·.value)

/-- A header that can be written into a line. -/
structure Clean (header : MessageHeader) : Prop where
  colon : ':' ∉ header.name.toList
  name : Trimmed header.name.toList
  value : Trimmed header.value.toList
  nameInLine : InLine header.name.toList
  valueInLine : InLine header.value.toList

variable {frame : String}

variable {headers : List MessageHeader}

theorem clean_of_headerLines {lines : List (List Char)} (inside : ∀ line ∈ lines, InLine line)
    (parsed : headerLines frame lines = .ok headers) :
    ∀ header ∈ headers, Clean header := by
  induction lines generalizing headers with
  | nil =>
    obtain rfl := Except.ok.inj parsed
    exact fun _ member => nomatch member
  | cons line lines ih =>
    unfold headerLines at parsed
    split at parsed
    · obtain rfl := Except.ok.inj parsed
      exact fun _ member => nomatch member
    · obtain ⟨⟨name, value⟩, split, parsed⟩ := bind_eq_ok.mp parsed
      obtain ⟨others, later, same⟩ := bind_eq_ok.mp parsed
      obtain rfl := Except.ok.inj same
      obtain ⟨rfl, absent⟩ := splitOnce_eq_some (okOr_eq_ok.mp split)
      have whole := inside _ mem_cons_self
      intro header member
      rcases mem_cons.mp member with rfl | further
      · constructor
        · rw [String.toList_ofList]
          exact fun member => absent ((trim_within name).mem member)
        · rw [String.toList_ofList]
          exact trimmed_trim name
        · rw [String.toList_ofList]
          exact trimmed_trim value
        · rw [String.toList_ofList]
          exact whole.within ((trim_within name).trans (prefix_append _ _).isInfix)
        · rw [String.toList_ofList]
          apply whole.within ((trim_within value).trans _)
          exact ((suffix_cons _ _).trans (suffix_append _ _)).isInfix
      · exact ih (forall_mem_cons.mp inside).2 later header further

/-- Every header that was read can be written. -/
theorem clean_of_parseHeaders {bytes : Bytes} (parsed : parseHeaders frame bytes = .ok headers) :
    ∀ header ∈ headers, Clean header := by
  obtain ⟨text, -, parsed⟩ := bind_eq_ok.mp parsed
  obtain ⟨_, -, parsed⟩ := bind_eq_ok.mp parsed
  apply clean_of_headerLines _ parsed
  exact fun line member => inLine_of_mem_splitCrlf (mem_of_mem_tail member)

/-- The lines of a block after the first one. -/
def written (headers : List MessageHeader) : List Char :=
  (headers.foldr (fun header rest => header.name ++ ": " ++ header.value ++ "\r\n" ++ rest)
    "").toList ++ ['\r', '\n']

theorem headerLines_written (clean : ∀ header ∈ headers, Clean header) :
    headerLines frame (splitCrlf (written headers)) = .ok headers := by
  induction headers with
  | nil => rfl
  | cons header headers ih =>
    have own := clean header mem_cons_self
    have others := ih (forall_mem_cons.mp clean).2
    let line := header.name.toList ++ ':' :: ' ' :: header.value.toList
    have shape : written (header :: headers) = line ++ '\r' :: '\n' :: written headers := by
      simp [written, line]
    have inside : InLine line := by
      apply own.nameInLine.append_cons _ (by decide) (by decide)
      have blank : InLine [] := fun found => nomatch infix_nil.mp found
      exact blank.append_cons own.valueInLine (by decide) (by decide)
    have nonempty : line ≠ [] := by simp [line]
    rw [shape, splitCrlf_append inside, headerLines, if_neg nonempty,
      splitOnce_append own.colon, okOr, ok_bind, others, ok_bind, trim_of_trimmed own.name,
      trim_blank, trim_of_trimmed own.value, String.ofList_toList, String.ofList_toList]

/-- What is written is read back. -/
theorem parseHeaders_headerBlock (clean : ∀ header ∈ headers, Clean header) :
    parseHeaders frame (utf8 (headerBlock headers)) = .ok headers := by
  have shape : (headerBlock headers).toList =
      "MORROW/1.0".toList ++ '\r' :: '\n' :: written headers := by
    simp [headerBlock, written]
  rw [parseHeaders, fromUtf8_utf8, okOr, ok_bind, shape]
  exact headerLines_written clean

end Morrow.Protocol
