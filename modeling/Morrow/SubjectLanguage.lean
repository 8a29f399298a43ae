import Morrow.Subject
import Morrow.Text

/-!
# The subjects a filter stands for

A filter is a text, and it stands for a set of subjects. A filter that is read as if it
were a subject matches another pattern token by token, wildcards included. That says
something about the subjects it stands for as long as no `**` is compared with a `*`:
`*` stands for one token, `**` for any number of them. What a list of patterns covers is
decided here by writing out a final `**` as one, two, three and more `*`, up to the
length of the longest pattern.
-/

namespace Morrow.Subject

open List

/-! ### Valid subjects and filters -/

variable (text : String)

/-- `str::ends_with` of a slash. -/
def endsWithSlash : Bool := text.toList.getLast? == some '/'

/-- A token of a subject. -/
def literal (token : String) : Bool :=
  token != "" && !token.toList.contains '*' && !token.toList.contains '>' &&
    !token.toList.any Text.isWhitespace

def validateSubject (subject : String) : Bool :=
  if subject == "" || Text.startsWith subject "/" || endsWithSlash subject then false
  else (split subject).all literal

/-- The tokens of a filter, where `**` is the last one. -/
def validTokens : List String → Bool
  | [] => true
  | token :: tokens =>
    if token == "" || token.toList.any Text.isWhitespace then false
    else if token = "**" then tokens.isEmpty
    else if token != "*" && (token.toList.contains '*' || token.toList.contains '>') then false
    else validTokens tokens

def validateSubscription (pattern : String) : Bool :=
  if pattern == "" || Text.startsWith pattern "/" || endsWithSlash pattern then false
  else validTokens (split pattern)

/-! ### Tokens -/

/-- The text with the given tokens. -/
def joined (tokens : List String) : String :=
  String.ofList (['/'].intercalate (tokens.map String.toList))

theorem splitChars_eq (letters : List Char) : splitChars letters = letters.splitOn '/' := by
  induction letters with
  | nil => rfl
  | cons letter letters ih =>
    rw [splitOn, splitOnP_cons_eq_if_modifyHead, splitChars, ih]
    by_cases slash : letter = '/'
    · rw [if_pos slash, if_pos (by simpa using slash)]
      rfl
    · rw [if_neg slash, if_neg (by simpa using slash)]
      cases rest : letters.splitOn '/' with
      | nil => exact absurd rest (splitOnP_ne_nil _ _)
      | cons token tokens =>
        rw [splitOn] at rest
        rw [rest]
        rfl

theorem split_ne_nil : split text ≠ [] := by
  rw [split, splitChars_eq]
  intro none
  exact splitOnP_ne_nil _ _ (map_eq_nil_iff.mp none)

theorem joined_split : joined (split text) = text := by
  rw [joined, split, map_map, splitChars_eq]
  have same : (String.toList ∘ String.ofList) = id := funext fun _ => String.toList_ofList
  rw [same, map_id, intercalate_splitOn, String.ofList_toList]

variable {tokens : List String}

theorem split_joined (some_ : tokens ≠ []) (plain : ∀ token ∈ tokens, '/' ∉ token.toList) :
    split (joined tokens) = tokens := by
  have slashFree : ∀ letters ∈ tokens.map String.toList, '/' ∉ letters := by
    intro letters member
    obtain ⟨token, among, rfl⟩ := mem_map.mp member
    exact plain token among
  have same : (String.ofList ∘ String.toList) = id := funext fun _ => String.ofList_toList
  rw [split, joined, String.toList_ofList, splitChars_eq,
    splitOn_intercalate '/' slashFree (by simpa using some_), map_map, same, map_id]

theorem not_mem_splitChars {letters token : List Char} (member : token ∈ splitChars letters) :
    '/' ∉ token := by
  induction letters generalizing token with
  | nil =>
    rw [splitChars, mem_singleton] at member
    rw [member]
    exact not_mem_nil
  | cons letter letters ih =>
    rw [splitChars] at member
    split at member
    · rcases mem_cons.mp member with rfl | later
      · exact not_mem_nil
      · exact ih later
    · rename_i other
      cases rest : splitChars letters with
      | nil =>
        simp only [rest, mem_singleton] at member
        simpa [member] using Ne.symm other
      | cons first tokens =>
        simp only [rest] at member
        rw [rest] at ih
        rcases mem_cons.mp member with rfl | later
        · rw [mem_cons, not_or]
          exact ⟨Ne.symm other, ih mem_cons_self⟩
        · exact ih (mem_cons_of_mem first later)

variable {token text : String}

theorem not_mem_split (member : token ∈ split text) : '/' ∉ token.toList := by
  obtain ⟨letters, among, rfl⟩ := mem_map.mp member
  rw [String.toList_ofList]
  exact not_mem_splitChars among

/-- The tokens of two texts with a slash between them. -/
theorem split_append (left right : String) :
    split (left ++ "/" ++ right) = split left ++ split right := by
  have letters : (left ++ "/" ++ right).toList = left.toList ++ '/' :: right.toList := by simp
  rw [split, letters, splitChars_eq, Text.splitOn_append_cons, map_append, split, split,
    splitChars_eq, splitChars_eq]

theorem joined_append {left right : List String} (some_ : left ≠ []) (others : right ≠ []) :
    joined (left ++ right) = joined left ++ "/" ++ joined right := by
  apply String.toList_injective
  rw [joined, map_append, Text.intercalate_append _ (by simpa using some_) (by simpa using others)]
  simp [joined]

/-- A letter of the text is in one of its tokens. -/
theorem mem_split_iff {letter : Char} (other : letter ≠ '/') :
    (∃ token ∈ split text, letter ∈ token.toList) ↔ letter ∈ text.toList := by
  have chars : ∀ letters, (∃ token ∈ splitChars letters, letter ∈ token) ↔ letter ∈ letters := by
    intro letters
    induction letters with
    | nil => simp [splitChars]
    | cons first letters ih =>
      rw [splitChars, mem_cons, ← ih]
      by_cases slash : first = '/'
      · simp [slash, other]
      · rw [if_neg slash]
        cases splitChars letters with
        | nil => simp
        | cons token tokens => simp [or_assoc]
  rw [← chars, split]
  simp

/-- The first token of a text. -/
def firstToken (text : String) : String := (split text).headD ""

/-- A start without a slash is the start of the first token. -/
theorem prefix_firstToken_iff {front : String} (plain : '/' ∉ front.toList) :
    front.toList <+: text.toList ↔ front.toList <+: (firstToken text).toList := by
  have chars : ∀ letters start : List Char, '/' ∉ start →
      (start <+: letters ↔ start <+: (splitChars letters).headD []) := by
    intro letters
    induction letters with
    | nil => exact fun start _ => Iff.rfl
    | cons letter letters ih =>
      intro start plain
      cases start with
      | nil => exact iff_of_true nil_prefix nil_prefix
      | cons first start =>
        rw [mem_cons, not_or] at plain
        rw [cons_prefix_cons, ih start plain.2, splitChars]
        by_cases slash : letter = '/'
        · rw [if_pos slash]
          refine iff_of_false (fun same => plain.1 (slash.symm.trans same.1.symm)) ?_
          exact fun starts => absurd (prefix_nil.mp starts) (cons_ne_nil _ _)
        · rw [if_neg slash]
          cases splitChars letters with
          | nil => exact cons_prefix_cons.symm
          | cons token tokens => exact cons_prefix_cons.symm
  rw [chars _ _ plain, firstToken, split]
  cases splitChars text.toList with
  | nil => exact Iff.rfl
  | cons token tokens => rw [map_cons, headD_cons, headD_cons, String.toList_ofList]

/-- A text whose tokens are not empty starts and ends inside of a token. -/
theorem inside_of_filled (filled : ∀ token ∈ split text, token ≠ "") :
    (text == "" || Text.startsWith text "/" || endsWithSlash text) = false := by
  have plain : [] ∉ text.toList.splitOn '/' := by
    intro member
    rw [← splitChars_eq] at member
    exact filled "" (mem_map.mpr ⟨[], member, rfl⟩) rfl
  simp only [Bool.or_eq_false_iff, beq_eq_false_iff_ne]
  refine ⟨⟨?_, ?_⟩, ?_⟩
  · rintro rfl
    exact plain (by decide)
  · rw [Bool.eq_false_iff, Ne, Text.startsWith_iff]
    rintro ⟨rest, whole⟩
    apply plain
    rw [← whole, splitOn, show "/".toList ++ rest = [] ++ '/' :: rest from rfl,
      splitOnP_append_cons [] rest (by rfl)]
    exact mem_append_left _ (by decide)
  · rw [endsWithSlash, beq_eq_false_iff_ne]
    intro last
    obtain ⟨front, whole⟩ := getLast?_eq_some_iff.mp last
    apply plain
    rw [whole, splitOn, splitOnP_append_cons front [] (by rfl)]
    exact mem_append_right _ (by decide)

theorem validateSubject_iff {subject : String} :
    validateSubject subject = true ↔ ∀ token ∈ split subject, literal token = true := by
  constructor
  · intro valid
    unfold validateSubject at valid
    split at valid
    · cases valid
    · exact all_eq_true.mp valid
  · intro literals
    have filled : ∀ token ∈ split subject, token ≠ "" := by
      rintro token member rfl
      exact absurd (literals "" member) (by decide)
    rw [validateSubject, inside_of_filled filled]
    exact all_eq_true.mpr literals

/-! ### Filters as sets of subjects -/

theorem matchTokens_cons_nil (pattern : String) (patterns : List String) :
    matchTokens (pattern :: patterns) [] = true ↔ pattern = "**" := by
  unfold matchTokens
  split <;> simp_all

theorem matchTokens_cons_cons (pattern token : String) (patterns tokens : List String) :
    matchTokens (pattern :: patterns) (token :: tokens) = true ↔
      pattern = "**" ∨ (pattern = "*" ∨ pattern = token) ∧ matchTokens patterns tokens = true := by
  rw [matchTokens.eq_def]
  by_cases open_ : pattern = "**"
  · simp [open_]
  · by_cases agrees : pattern = "*" ∨ pattern = token
    · simp [open_]
    · simp [open_]

variable {front subject filter : List String}

/-- Tokens at the start of a filter that are no wildcards start the subject. -/
theorem matchTokens_literals (literals : ∀ token ∈ front, token ≠ "*" ∧ token ≠ "**")
    (matched : matchTokens (front ++ filter) subject = true) :
    ∃ rest, subject = front ++ rest ∧ matchTokens filter rest = true := by
  induction front generalizing subject with
  | nil => exact ⟨subject, rfl, matched⟩
  | cons token tokens ih =>
    rw [forall_mem_cons] at literals
    obtain ⟨⟨notAny, notOpen⟩, literals⟩ := literals
    cases subject with
    | nil => exact absurd ((matchTokens_cons_nil _ _).mp matched) notOpen
    | cons first subject =>
      rcases (matchTokens_cons_cons _ _ _ _).mp matched with open_ | ⟨same, matched⟩
      · exact absurd open_ notOpen
      · obtain ⟨rest, rfl, later⟩ := ih literals matched
        rw [same.resolve_left notAny]
        exact ⟨rest, rfl, later⟩

theorem firstToken_of_matches {filter subject : String}
    (literal : firstToken filter ≠ "*" ∧ firstToken filter ≠ "**")
    (matched : subjectMatches filter subject = true) :
    firstToken subject = firstToken filter := by
  rw [subjectMatches] at matched
  rw [firstToken] at literal ⊢
  rw [firstToken]
  cases tokens : split filter with
  | nil => exact absurd tokens (split_ne_nil filter)
  | cons token rest =>
    rw [tokens] at matched literal
    obtain ⟨later, same, _⟩ := matchTokens_literals (forall_mem_singleton.mpr literal) matched
    rw [same]
    rfl

/-- The tokens of a subject that a filter without `**` stands for. -/
def Instance : List String → List String → Prop :=
  List.Forall₂ fun pattern token => pattern = "*" ∨ pattern = token

theorem matchTokens_iff_instance (plain : "**" ∉ filter) :
    matchTokens filter subject = true ↔ Instance filter subject := by
  induction filter generalizing subject with
  | nil =>
    cases subject with
    | nil => exact iff_of_true rfl .nil
    | cons token tokens => exact iff_of_false nofun nofun
  | cons pattern patterns ih =>
    rw [mem_cons, not_or] at plain
    cases subject with
    | nil =>
      rw [matchTokens_cons_nil]
      exact iff_of_false (Ne.symm plain.1) nofun
    | cons token tokens =>
      rw [matchTokens_cons_cons, ih plain.2, Instance]
      simp [Ne.symm plain.1]

/-- A final `**` takes what is left over. -/
theorem matchTokens_open (plain : "**" ∉ front) :
    matchTokens (front ++ ["**"]) subject = true ↔
      ∃ first rest, subject = first ++ rest ∧ Instance front first := by
  induction front generalizing subject with
  | nil =>
    refine iff_of_true ?_ ⟨[], subject, rfl, .nil⟩
    cases subject with
    | nil => exact (matchTokens_cons_nil _ _).mpr rfl
    | cons token tokens => exact (matchTokens_cons_cons _ _ _ _).mpr (.inl rfl)
  | cons pattern patterns ih =>
    rw [mem_cons, not_or] at plain
    cases subject with
    | nil =>
      rw [cons_append, matchTokens_cons_nil]
      refine iff_of_false (Ne.symm plain.1) ?_
      rintro ⟨first, rest, whole, fits⟩
      cases fits
      cases whole
    | cons token tokens =>
      rw [cons_append, matchTokens_cons_cons, ih plain.2]
      constructor
      · rintro (open_ | ⟨agrees, first, rest, rfl, fits⟩)
        · exact absurd open_.symm plain.1
        · exact ⟨token :: first, rest, rfl, .cons agrees fits⟩
      · rintro ⟨first, rest, whole, fits⟩
        cases fits with
        | cons agrees fits =>
          obtain ⟨rfl, rfl⟩ := cons.inj whole
          exact .inr ⟨agrees, _, rest, rfl, fits⟩

variable {pattern : List String}

/-- A pattern that matches the text of a filter matches what the filter stands for. -/
theorem matchTokens_of_instance (accepts : matchTokens pattern filter = true)
    (fits : Instance filter subject) :
    matchTokens pattern subject = true := by
  induction pattern generalizing filter subject with
  | nil =>
    cases fits with
    | nil => exact accepts
    | cons agrees fits => cases accepts
  | cons first rest ih =>
    cases fits with
    | nil => exact accepts
    | cons agrees fits =>
      rw [matchTokens_cons_cons] at accepts ⊢
      rcases accepts with open_ | ⟨same, accepts⟩
      · exact .inl open_
      · refine .inr ⟨?_, ih accepts fits⟩
        rcases same with any | rfl
        · exact .inl any
        · exact agrees

/-- A pattern that is done before the subject ends takes any longer subject as well. -/
theorem matchTokens_append (later : List String) (accepts : matchTokens pattern subject = true)
    (longer : pattern.length < subject.length) :
    matchTokens pattern (subject ++ later) = true := by
  induction pattern generalizing subject with
  | nil =>
    cases subject with
    | nil => cases longer
    | cons token tokens => cases accepts
  | cons first rest ih =>
    cases subject with
    | nil => cases longer
    | cons token tokens =>
      rw [cons_append]
      rw [matchTokens_cons_cons] at accepts ⊢
      rcases accepts with open_ | ⟨same, accepts⟩
      · exact .inl open_
      · exact .inr ⟨same, ih accepts (Nat.lt_of_succ_lt_succ longer)⟩

/-- The subject in which every `*` of a filter is a given token. -/
def filled (token : String) (filter : List String) : List String :=
  filter.map fun pattern => if pattern = "*" then token else pattern

theorem instance_filled (token : String) (filter : List String) :
    Instance filter (filled token filter) := by
  induction filter with
  | nil => exact .nil
  | cons pattern patterns ih =>
    refine .cons ?_ ih
    by_cases any : pattern = "*"
    · exact .inl any
    · exact .inr (by simp [any])

/-- A pattern without the given token cannot tell it from a `*`. -/
theorem matchTokens_of_filled (unknown : token ∉ pattern)
    (accepts : matchTokens pattern (filled token filter) = true) :
    matchTokens pattern filter = true := by
  induction pattern generalizing filter with
  | nil =>
    cases filter with
    | nil => rfl
    | cons first rest => cases accepts
  | cons first rest ih =>
    rw [mem_cons, not_or] at unknown
    cases filter with
    | nil => exact accepts
    | cons other others =>
      rw [filled, map_cons, matchTokens_cons_cons] at accepts
      rw [matchTokens_cons_cons]
      rcases accepts with open_ | ⟨same, accepts⟩
      · exact .inl open_
      · refine .inr ⟨?_, ih unknown.2 accepts⟩
        by_cases any : other = "*"
        · rw [if_pos any] at same
          rcases same with same | same
          · exact .inl same
          · exact absurd same.symm unknown.1
        · rwa [if_neg any] at same

/-! ### What a list of patterns covers -/

/-- The longest of the patterns. -/
def longest (patterns : List (List String)) : ℕ := (patterns.map length).foldr max 0

variable {patterns : List (List String)}

theorem length_le_longest (member : pattern ∈ patterns) : pattern.length ≤ longest patterns := by
  induction patterns with
  | nil => cases member
  | cons first rest ih =>
    rcases mem_cons.mp member with rfl | later
    · exact le_max_left _ _
    · exact (ih later).trans (le_max_right _ _)

/-- Some pattern matches the tokens. -/
def accepted (patterns : List (List String)) (tokens : List String) : Bool :=
  patterns.any fun pattern => matchTokens pattern tokens

/-- A filter is covered if its text is accepted, and if every filter is accepted that
writes out a final `**`. -/
def covered (patterns : List (List String)) (filter : List String) : Bool :=
  if filter.getLast? = some "**" then
    (range (longest patterns + 2)).all fun depth =>
      let spelled := filter.dropLast ++ replicate depth "*"
      spelled.isEmpty || accepted patterns spelled
  else accepted patterns filter

/-- A token that is in none of the patterns. -/
def freshToken (patterns : List (List String)) : String :=
  String.ofList (replicate ((patterns.flatten.map String.length).foldr max 0 + 1) 'x')

theorem freshToken_not_mem (member : pattern ∈ patterns) : freshToken patterns ∉ pattern := by
  intro used
  have bound : ∀ tokens : List String, ∀ token ∈ tokens,
      token.length ≤ (tokens.map String.length).foldr max 0 := by
    intro tokens
    induction tokens with
    | nil => exact fun _ absent => absurd absent not_mem_nil
    | cons first rest ih =>
      rintro token among
      rcases mem_cons.mp among with rfl | later
      · exact le_max_left _ _
      · exact (ih token later).trans (le_max_right _ _)
  have short := bound patterns.flatten _ (mem_flatten.mpr ⟨pattern, member, used⟩)
  have long : (freshToken patterns).length =
      (patterns.flatten.map String.length).foldr max 0 + 1 := by
    rw [freshToken, String.length_ofList, length_replicate]
  omega

theorem literal_freshToken (patterns : List (List String)) :
    literal (freshToken patterns) = true ∧ '/' ∉ (freshToken patterns).toList := by
  have only : ∀ letter ∈ (freshToken patterns).toList, letter = 'x' := by
    intro letter member
    rw [freshToken, String.toList_ofList] at member
    exact eq_of_mem_replicate member
  have without : ∀ letter, letter ≠ 'x' → letter ∉ (freshToken patterns).toList :=
    fun letter other member => other (only letter member)
  constructor
  · simp only [literal, Bool.and_eq_true, bne_iff_ne, Bool.not_eq_true', contains_eq_mem,
      decide_eq_false_iff_not, any_eq_false]
    refine ⟨⟨⟨?_, without '*' (by decide)⟩, without '>' (by decide)⟩, ?_⟩
    · rw [freshToken, Ne, ← String.toList_inj, String.toList_ofList]
      exact cons_ne_nil _ _
    · intro letter member
      rw [only letter member]
      decide
  · exact without '/' (by decide)

/-- The tokens of a subject. -/
structure Concrete (tokens : List String) : Prop where
  some_ : tokens ≠ []
  literals : ∀ token ∈ tokens, literal token = true
  plain : ∀ token ∈ tokens, '/' ∉ token.toList

theorem validateSubject_joined (concrete : Concrete tokens) :
    validateSubject (joined tokens) = true := by
  rw [validateSubject_iff, split_joined concrete.some_ concrete.plain]
  exact concrete.literals

theorem validTokens_cons : validTokens (token :: tokens) = true ↔ if token = "**" then tokens = []
    else (token = "*" ∨ literal token = true) ∧ validTokens tokens = true := by
  rw [validTokens]
  by_cases open_ : token = "**"
  · simp [open_, show Text.isWhitespace '*' = false by decide]
  · by_cases any : token = "*"
    · simp [any, show Text.isWhitespace '*' = false by decide]
    · simp [literal]
      grind

theorem validTokens_of_valid {pattern : String} (valid : validateSubscription pattern = true) :
    validTokens (split pattern) = true := by
  unfold validateSubscription at valid
  split at valid
  · cases valid
  · exact valid

/-- Every token of a valid filter is a wildcard or a token of subjects, and `**` is at most
the last one. -/
theorem validTokens_cases (valid : validTokens filter = true) :
    (∃ front, filter = front ++ ["**"] ∧ "**" ∉ front ∧
      ∀ token ∈ front, token = "*" ∨ literal token = true) ∨
    "**" ∉ filter ∧ ∀ token ∈ filter, token = "*" ∨ literal token = true := by
  induction filter with
  | nil => exact .inr ⟨not_mem_nil, fun _ absent => absurd absent not_mem_nil⟩
  | cons token tokens ih =>
    rw [validTokens_cons] at valid
    by_cases open_ : token = "**"
    · rw [if_pos open_] at valid
      exact .inl ⟨[], by rw [open_, valid]; rfl, not_mem_nil,
        fun _ absent => absurd absent not_mem_nil⟩
    · rw [if_neg open_] at valid
      rcases ih valid.2 with ⟨front, rfl, plain, literals⟩ | ⟨plain, literals⟩
      · refine .inl ⟨token :: front, rfl, ?_, forall_mem_cons.mpr ⟨valid.1, literals⟩⟩
        rw [mem_cons, not_or]
        exact ⟨Ne.symm open_, plain⟩
      · refine .inr ⟨?_, forall_mem_cons.mpr ⟨valid.1, literals⟩⟩
        rw [mem_cons, not_or]
        exact ⟨Ne.symm open_, plain⟩

/-- Filling in the wildcards of a filter gives a subject. -/
theorem concrete_filled (patterns : List (List String)) (some_ : filter ≠ [])
    (literals : ∀ token ∈ filter, token = "*" ∨ literal token = true)
    (plain : ∀ token ∈ filter, '/' ∉ token.toList) :
    Concrete (filled (freshToken patterns) filter) := by
  obtain ⟨fresh, slashFree⟩ := literal_freshToken patterns
  have each : ∀ token ∈ filled (freshToken patterns) filter,
      literal token = true ∧ '/' ∉ token.toList := by
    intro token member
    obtain ⟨pattern, among, rfl⟩ := mem_map.mp member
    split
    · exact ⟨fresh, slashFree⟩
    · rename_i closed
      exact ⟨(literals pattern among).resolve_left closed, plain pattern among⟩
  exact ⟨by simpa [filled] using some_, fun token member => (each token member).1,
    fun token member => (each token member).2⟩

theorem accepted_iff :
    accepted patterns tokens = true ↔ ∃ pattern ∈ patterns, matchTokens pattern tokens = true :=
  any_eq_true

theorem accepted_of_instance (accepts : accepted patterns filter = true)
    (fits : Instance filter subject) :
    accepted patterns subject = true := by
  obtain ⟨pattern, member, matches_⟩ := accepted_iff.mp accepts
  exact accepted_iff.mpr ⟨pattern, member, matchTokens_of_instance matches_ fits⟩

theorem accepted_of_filled
    (accepts : accepted patterns (filled (freshToken patterns) filter) = true) :
    accepted patterns filter = true := by
  obtain ⟨pattern, member, matches_⟩ := accepted_iff.mp accepts
  exact accepted_iff.mpr ⟨pattern, member,
    matchTokens_of_filled (freshToken_not_mem member) matches_⟩

section Covers

variable {patterns : List (List String)} {front : List String}

theorem covered_open : covered patterns (front ++ ["**"]) = true ↔
    ∀ depth < longest patterns + 2, front ++ replicate depth "*" ≠ [] →
      accepted patterns (front ++ replicate depth "*") = true := by
  simp only [covered, getLast?_append, getLast?_singleton, Option.some_or, if_true,
    dropLast_concat, all_eq_true, mem_range, Bool.or_eq_true, List.isEmpty_iff]
  exact forall_congr' fun depth => imp_congr_right fun _ => or_iff_not_imp_left

theorem covered_closed {filter : List String} (plain : "**" ∉ filter) :
    covered patterns filter = accepted patterns filter := by
  rw [covered, if_neg]
  intro last
  exact plain (mem_of_getLast? last)

/-- Writing out a `**` often enough stands for all longer subjects, too. -/
theorem accepted_of_covered_open {subject : List String} (plain : "**" ∉ front)
    (covers : covered patterns (front ++ ["**"]) = true) (some_ : subject ≠ [])
    (matches_ : matchTokens (front ++ ["**"]) subject = true) :
    accepted patterns subject = true := by
  obtain ⟨first, rest, rfl, fits⟩ := (matchTokens_open plain).mp matches_
  let depth := min rest.length (longest patterns + 1)
  have spelled : Instance (front ++ replicate depth "*") (first ++ rest.take depth) := by
    refine rel_append fits ?_
    rw [forall₂_iff_get]
    refine ⟨by simp [depth], fun index inside _ => .inl (by simp)⟩
  have filledIn : front ++ replicate depth "*" ≠ [] := by
    intro none
    rw [none] at spelled
    have nothing : first ++ rest.take depth = [] := forall₂_nil_left_iff.mp spelled
    obtain ⟨noFirst, noRest⟩ := append_eq_nil_iff.mp nothing
    have ended : rest = [] := by
      rcases take_eq_nil_iff.mp noRest with zero | ended
      · exact eq_nil_of_length_eq_zero (by omega)
      · exact ended
    exact some_ (by rw [noFirst, ended, nil_append])
  have accepts := covered_open.mp covers depth (by omega) filledIn
  obtain ⟨pattern, member, matches_⟩ := accepted_iff.mp (accepted_of_instance accepts spelled)
  have short := length_le_longest member
  refine accepted_iff.mpr ⟨pattern, member, ?_⟩
  by_cases whole : rest.length ≤ longest patterns + 1
  · have all : rest.take depth = rest := take_of_length_le (by omega)
    rwa [all] at matches_
  · have extended := matchTokens_append (rest.drop depth) matches_ (by
      rw [length_append, length_take]
      omega)
    rwa [append_assoc, take_append_drop] at extended

end Covers

/-- The filter itself, or one that writes out its final `**`. -/
def Spells (filter spelled : List String) : Prop :=
  spelled = filter ∨ ∃ front depth, filter = front ++ ["**"] ∧
    spelled = front ++ replicate depth "*"

section Filters

variable {patterns : List (List String)} {filter : List String}

/-- A filter is covered if its subjects with a token that no pattern knows are accepted. -/
theorem covered_of_fresh (valid : validTokens filter = true) (some_ : filter ≠ [])
    (plain : ∀ token ∈ filter, '/' ∉ token.toList)
    (all : ∀ spelled, Spells filter spelled →
      Concrete (filled (freshToken patterns) spelled) →
      matchTokens filter (filled (freshToken patterns) spelled) = true →
      accepted patterns (filled (freshToken patterns) spelled) = true) :
    covered patterns filter = true := by
  rcases validTokens_cases valid with ⟨front, rfl, closed, literals⟩ | ⟨closed, literals⟩
  · rw [covered_open]
    intro depth _ nonempty
    apply accepted_of_filled
    apply all _ (.inr ⟨front, depth, rfl, rfl⟩) (concrete_filled patterns nonempty ?_ ?_)
    · rw [matchTokens_open closed]
      exact ⟨filled _ front, filled _ (replicate depth "*"), map_append, instance_filled _ _⟩
    · intro token member
      rcases mem_append.mp member with inside | added
      · exact literals token inside
      · exact .inl (eq_of_mem_replicate added)
    · intro token member
      rcases mem_append.mp member with inside | added
      · exact plain token (mem_append_left _ inside)
      · rw [eq_of_mem_replicate added]
        decide
  · rw [covered_closed closed]
    apply accepted_of_filled
    apply all _ (.inl rfl) (concrete_filled patterns some_ literals plain)
    exact (matchTokens_iff_instance closed).mpr (instance_filled _ _)

/-- What a covered filter stands for is accepted. -/
theorem accepted_of_covered (valid : validTokens filter = true)
    (covers : covered patterns filter = true) {subject : List String} (some_ : subject ≠ [])
    (matches_ : matchTokens filter subject = true) : accepted patterns subject = true := by
  rcases validTokens_cases valid with ⟨front, rfl, closed, literals⟩ | ⟨closed, literals⟩
  · exact accepted_of_covered_open closed covers some_ matches_
  · rw [covered_closed closed] at covers
    exact accepted_of_instance covers ((matchTokens_iff_instance closed).mp matches_)

end Filters

end Morrow.Subject
