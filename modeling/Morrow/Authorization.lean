import Morrow.Tenancy
import Morrow.TenantQuota

/-!
# Who may publish and subscribe

A broker with authentication looks up the identity of a connection, its scope and its
permissions before it takes a publish or a subscribe. An identity may always use its own
inbox, which is below `_MORROW/INBOX/`. Every other subject has to be in the identity's
scope, a role has to allow the operation, and one of the identity's patterns has to match
the subject. A subscription is checked by the same comparison, with the text of its filter
in the place of the subject.
-/

namespace Morrow

open List Subject

/-- The result that is there, or an error with the message. -/
def okOr {α : Type} (message : String) : Option α → Outcome α
  | some value => .ok value
  | none => .error (.error message)

theorem okOr_eq_ok {α : Type} {message : String} {found : Option α} {value : α} :
    okOr message found = .ok value ↔ found = some value := by
  cases found with
  | none => simp [okOr]
  | some other => simp [okOr]

/-! ### Inboxes -/

def inboxFront : String := "_MORROW/INBOX/"

def isInboxSubscription (subject : String) : Bool :=
  subject == "_MORROW/INBOX/**" || Text.startsWith subject inboxFront

def isInboxPublish (subject : String) : Bool := Text.startsWith subject inboxFront

def inboxBelongsTo (subject clientId : String) : Bool :=
  (Text.withoutFront subject inboxFront).any fun tail =>
    tail == clientId || Text.startsWith tail (clientId ++ "/")

/-! ### Clients -/

structure AuthPermissions where
  publish : Option (List String)
  subscribe : Option (List String)
deriving DecidableEq

structure AuthClientConfig where
  permissions : Option AuthPermissions
  tenant : String
  nameSpace : String
  externalSubject : Option String
  expiresAtMs : Option ℕ
deriving DecidableEq

structure AuthConfig where
  enabled : Bool
  clients : OrderedMap String AuthClientConfig

/-- A connection's client. -/
structure Client where
  configured : Bool
  durableId : Option String
  authenticated : Bool
  ackTimeoutMs : ℕ
  maxInFlight : ℕ
  protocolVersion : ℕ
  quotaTenant : String
  quotaUsage : TenantQuotaUsage

/-- What the decisions depend on: the configuration, the roles, the connections and the
clock. -/
structure AccessControl where
  auth : AuthConfig
  policy : PolicySnapshot
  clients : OrderedMap ℕ Client
  nowMs : ℕ

namespace AccessControl

/-- Some client is outside of the default scope. -/
def scopedMode (access : AccessControl) : Bool :=
  access.auth.clients.values.any fun client =>
    client.tenant != "default" || client.nameSpace != "default"

def authorizePolicy (access : AccessControl) (connectionId : ℕ) (permission : Permission)
    (resource : Option String) : Outcome Unit :=
  if access.auth.enabled = false then .ok ()
  else do
    let subject ← okOr "authenticated client is missing durable identity"
      ((access.clients.get? connectionId).bind Client.durableId)
    let clientConfig ← okOr "unknown authenticated client" (access.auth.clients.get? subject)
    let tenant ← Tenancy.TenantId.new clientConfig.tenant
    let nameSpace ← Tenancy.NamespaceId.new clientConfig.nameSpace
    let scope : Tenancy.ResourceScope := ⟨tenant, nameSpace⟩
    ensure (access.scopedMode = true → resource.all scope.containsSubject = true)
      "resource is outside authenticated tenant namespace"
    Tenancy.authorize access.policy (clientConfig.externalSubject.getD subject) scope permission
      access.nowMs

/-- The check of a publish and of a subscribe, which differ in the inboxes they let
through, the permission, the patterns and the texts. -/
def checkAuthorization (isInbox : String → Bool) (permission : Permission)
    (patterns : AuthPermissions → Option (List String)) (kind : String)
    (access : AccessControl) (connectionId : ℕ) (subjectName : String) : Outcome Unit :=
  if access.auth.enabled = false then .ok ()
  else do
    let client ← okOr "unknown connection" (access.clients.get? connectionId)
    ensure (client.authenticated = true) "authentication required"
    let clientId ← okOr "authenticated client is missing durable identity" client.durableId
    if isInbox subjectName then
      ensure (inboxBelongsTo subjectName clientId = true) ("inbox " ++ kind ++ " not authorized")
    else do
      access.authorizePolicy connectionId permission (some subjectName)
      let authClient ← okOr "unknown authenticated client" (access.auth.clients.get? clientId)
      match authClient.permissions.bind patterns with
      | none => .ok ()
      | some patterns =>
        ensure (patterns.any (subjectMatches · subjectName) = true) (kind ++ " not authorized")

def checkPublishAuthorization : AccessControl → ℕ → String → Outcome Unit :=
  checkAuthorization isInboxPublish .publish AuthPermissions.publish "publish"

def checkSubscribeAuthorization : AccessControl → ℕ → String → Outcome Unit :=
  checkAuthorization isInboxSubscription .subscribe AuthPermissions.subscribe "subscribe"

/-- The connection's identity and how it is configured. -/
structure Identified (access : AccessControl) (connectionId : ℕ) (clientId : String)
    (config : AuthClientConfig) : Prop where
  enabled : access.auth.enabled = true
  identity : (access.clients.get? connectionId).bind Client.durableId = some clientId
  configured : access.auth.clients.get? clientId = some config

/-- An identity whose subscriptions are restricted to a list of patterns. -/
structure Reader (access : AccessControl) (connectionId : ℕ) (clientId : String)
    (config : AuthClientConfig) (patterns : List String) : Prop
    extends Identified access connectionId clientId config where
  restricted : config.permissions.bind AuthPermissions.subscribe = some patterns

section Decisions

variable {access : AccessControl} {connectionId : ℕ} {clientId subjectName kind : String}
  {config : AuthClientConfig} {scope : Tenancy.ResourceScope} {permission : Permission}
  {isInbox : String → Bool} {patterns : AuthPermissions → Option (List String)}

/-- Where scopes are used, a resource has to be in the scope of the client. -/
theorem containsSubject_of_authorizePolicy (client : Identified access connectionId clientId config)
    (tenant : config.tenant = scope.tenant.text)
    (nameSpace : config.nameSpace = scope.nameSpace.text) (inUse : access.scopedMode = true)
    (allowed : access.authorizePolicy connectionId permission (some subjectName) = .ok ()) :
    scope.containsSubject subjectName = true := by
  rw [authorizePolicy, if_neg (by simp [client.enabled]), client.identity] at allowed
  simp only [okOr, client.configured, tenant, nameSpace, ok_bind, Tenancy.TenantId.new_text,
    Tenancy.NamespaceId.new_text] at allowed
  obtain ⟨_, inside, _⟩ := bind_eq_ok.mp allowed
  exact ensure_eq_ok.mp inside inUse

/-- What is let through is in the client's own inbox, or in its scope and matched by one of
its patterns. -/
theorem checkAuthorization_ok (client : Identified access connectionId clientId config)
    (allowed : checkAuthorization isInbox permission patterns kind access connectionId subjectName =
      .ok ()) :
    isInbox subjectName = true ∧ inboxBelongsTo subjectName clientId = true ∨
    isInbox subjectName = false ∧
      access.authorizePolicy connectionId permission (some subjectName) = .ok () ∧
      ∀ list, config.permissions.bind patterns = some list →
        list.any (subjectMatches · subjectName) = true := by
  rw [checkAuthorization, if_neg (by simp [client.enabled])] at allowed
  obtain ⟨connection, found, allowed⟩ := bind_eq_ok.mp allowed
  obtain ⟨_, _, allowed⟩ := bind_eq_ok.mp allowed
  obtain ⟨identity, known, allowed⟩ := bind_eq_ok.mp allowed
  have same : identity = clientId := by
    have named := client.identity
    rw [okOr_eq_ok.mp found, Option.bind_some, okOr_eq_ok.mp known] at named
    exact Option.some.inj named
  rw [same] at allowed
  by_cases inbox : isInbox subjectName = true
  · rw [if_pos inbox] at allowed
    exact .inl ⟨inbox, ensure_eq_ok.mp allowed⟩
  · rw [if_neg inbox] at allowed
    obtain ⟨_, policy, allowed⟩ := bind_eq_ok.mp allowed
    refine .inr ⟨by simpa using inbox, policy, ?_⟩
    intro list listed
    simp only [okOr, client.configured, ok_bind, listed, ensure_eq_ok] at allowed
    exact allowed

end Decisions

end AccessControl

/-! ### Scopes keep clients apart -/

variable {subject : String}

theorem split_of_inbox (inbox : Text.startsWith subject inboxFront = true) :
    ∃ tail, subject = inboxFront ++ tail ∧
      split subject = "_MORROW" :: "INBOX" :: split tail := by
  obtain ⟨letters, whole⟩ := Text.startsWith_iff.mp inbox
  have same : subject = "_MORROW" ++ "/" ++ ("INBOX" ++ "/" ++ String.ofList letters) := by
    apply String.toList_injective
    rw [← whole]
    simp [inboxFront]
  refine ⟨String.ofList letters, String.toList_injective (by simpa using whole.symm), ?_⟩
  rw [same, split_append, split_append]
  rfl

theorem firstToken_of_inbox (inbox : Text.startsWith subject inboxFront = true) :
    firstToken subject = "_MORROW" := by
  obtain ⟨tail, _, tokens⟩ := split_of_inbox inbox
  rw [firstToken, tokens]
  rfl

theorem isInboxSubscription_iff :
    isInboxSubscription subject = true ↔ Text.startsWith subject inboxFront = true := by
  rw [isInboxSubscription, Bool.or_eq_true, beq_iff_eq]
  constructor
  · rintro (rfl | inbox)
    · decide
    · exact inbox
  · exact .inr

variable {scope : Tenancy.ResourceScope}

/-- What is in a scope is recognised by the first token. -/
theorem containsSubject_iff_firstToken :
    scope.containsSubject subject = true ↔
      scope.subjectPrefix.toList <+: (firstToken subject).toList := by
  rw [Tenancy.ResourceScope.containsSubject_iff, prefix_firstToken_iff scope.subjectPrefix_chars.1]

theorem dot_of_containsSubject (inside : scope.containsSubject subject = true) :
    '.' ∈ (firstToken subject).toList :=
  (containsSubject_iff_firstToken.mp inside).subset scope.subjectPrefix_chars.2

/-- The inboxes are in no scope. -/
theorem not_containsSubject_of_inbox (scope : Tenancy.ResourceScope)
    (first : firstToken subject = "_MORROW") : ¬ scope.containsSubject subject = true := by
  intro inside
  have dot := dot_of_containsSubject inside
  rw [first] at dot
  exact absurd dot (by decide)

/-- The subjects that a filter of a scope stands for are in that scope, for its first token
is no wildcard. -/
theorem containsSubject_of_matches {filter : String} (inside : scope.containsSubject filter = true)
    (matched : subjectMatches filter subject = true) :
    scope.containsSubject subject = true := by
  have dot := dot_of_containsSubject inside
  have literal : firstToken filter ≠ "*" ∧ firstToken filter ≠ "**" := by
    constructor
    · intro wildcard
      rw [wildcard] at dot
      exact absurd dot (by decide)
    · intro wildcard
      rw [wildcard] at dot
      exact absurd dot (by decide)
  rw [containsSubject_iff_firstToken, firstToken_of_matches literal matched]
  exact containsSubject_iff_firstToken.mp inside

/-- Two scopes are isolated: no subject is in both, and where scopes are in use a client of
the first is not let to the subjects of the second. -/
structure Isolated (first second : Tenancy.ResourceScope) : Prop where
  disjoint : ∀ subject, ¬ (first.containsSubject subject = true ∧
    second.containsSubject subject = true)
  publish : ∀ access connectionId clientId config,
    AccessControl.Identified access connectionId clientId config →
    config.tenant = first.tenant.text → config.nameSpace = first.nameSpace.text →
    access.scopedMode = true → ∀ subject,
      access.checkPublishAuthorization connectionId subject = .ok () →
        ¬ second.containsSubject subject = true
  subscribe : ∀ access connectionId clientId config,
    AccessControl.Identified access connectionId clientId config →
    config.tenant = first.tenant.text → config.nameSpace = first.nameSpace.text →
    access.scopedMode = true → ∀ filter,
      access.checkSubscribeAuthorization connectionId filter = .ok () →
        ∀ subject, subjectMatches filter subject = true → ¬ second.containsSubject subject = true

/-- Scopes are isolated exactly if the words of neither start with the words of the other. -/
theorem isolated_iff_separate (first second : Tenancy.ResourceScope) :
    Isolated first second ↔ Tenancy.ResourceScope.Separate first second := by
  constructor
  · intro isolated
    exact Tenancy.ResourceScope.disjoint_iff.mp isolated.disjoint
  · intro separate
    have disjoint := Tenancy.ResourceScope.disjoint_iff.mpr separate
    constructor
    · exact disjoint
    · intro access connectionId clientId config client tenant nameSpace inUse subject allowed
      rcases AccessControl.checkAuthorization_ok client allowed with ⟨inbox, _⟩ | ⟨_, policy, _⟩
      · exact not_containsSubject_of_inbox second (firstToken_of_inbox inbox)
      · intro there
        have here := AccessControl.containsSubject_of_authorizePolicy client tenant nameSpace
          inUse policy
        exact disjoint subject ⟨here, there⟩
    · intro access connectionId clientId config client tenant nameSpace inUse filter allowed
        subject matched
      rcases AccessControl.checkAuthorization_ok client allowed with ⟨inbox, _⟩ | ⟨_, policy, _⟩
      · have first := firstToken_of_inbox (isInboxSubscription_iff.mp inbox)
        apply not_containsSubject_of_inbox
        rw [← first]
        exact firstToken_of_matches (by rw [first]; decide) matched
      · intro there
        have here := AccessControl.containsSubject_of_authorizePolicy client tenant nameSpace
          inUse policy
        exact disjoint subject ⟨containsSubject_of_matches here matched, there⟩

/-- The dot that joins two names may also be inside of one: `a.b.c.x` is in the namespace
`b.c` of `a` and in the namespace `c` of `a.b`. -/
theorem dotted_names_overlap :
    let first : Tenancy.ResourceScope := ⟨⟨"a", by decide⟩, ⟨"b.c", by decide⟩⟩
    let second : Tenancy.ResourceScope := ⟨⟨"a.b", by decide⟩, ⟨"c", by decide⟩⟩
    first ≠ second ∧ ¬ Isolated first second := by
  constructor
  · decide
  · intro isolated
    exact isolated.disjoint "a.b.c.x" (by decide)

/-! ### Subscriptions and what they may read -/

/-- What a client with a list of patterns may read: what a pattern matches, and its inbox. -/
def mayRead (patterns : List String) (clientId subject : String) : Bool :=
  patterns.any (subjectMatches · subject) || inboxBelongsTo subject clientId

/-- The inbox of a client, token by token. -/
theorem inboxBelongsTo_iff {clientId : String} : inboxBelongsTo subject clientId = true ↔
    ∃ rest, split subject = ["_MORROW", "INBOX"] ++ split clientId ++ rest := by
  have below : ∀ tail, split (inboxFront ++ tail) = ["_MORROW", "INBOX"] ++ split tail := by
    intro tail
    have same : inboxFront ++ tail = "_MORROW/INBOX" ++ "/" ++ tail :=
      String.toList_injective (by simp [inboxFront])
    rw [same, split_append]
    rfl
  rw [inboxBelongsTo, Option.any_eq_true]
  constructor
  · rintro ⟨tail, stripped, belongs⟩
    obtain rfl := Text.withoutFront_eq_some.mp stripped
    rw [Bool.or_eq_true, beq_iff_eq] at belongs
    rcases belongs with rfl | starts
    · exact ⟨[], by rw [below, append_nil]⟩
    · obtain ⟨letters, whole⟩ := Text.startsWith_iff.mp starts
      have same : tail = clientId ++ "/" ++ String.ofList letters :=
        String.toList_injective (by rw [← whole]; simp)
      exact ⟨split (String.ofList letters), by
        rw [below, same, split_append, append_assoc]⟩
  · rintro ⟨rest, tokens⟩
    have joins := congrArg joined tokens
    rw [joined_split, append_assoc, joined_append (cons_ne_nil _ _)
      (append_ne_nil_of_left_ne_nil (split_ne_nil _) _)] at joins
    refine ⟨_, Text.withoutFront_eq_some.mpr joins, ?_⟩
    rw [Bool.or_eq_true, beq_iff_eq]
    by_cases none : rest = []
    · rw [none, append_nil, joined_split]
      exact .inl rfl
    · rw [joined_append (split_ne_nil _) none, joined_split]
      exact .inr (Text.startsWith_iff.mpr ⟨(joined rest).toList, by simp⟩)

section Readers

variable {patterns : List String} {clientId filter : String}

variable {subject : String}

theorem patterns_any_iff :
    patterns.any (subjectMatches · subject) = accepted (patterns.map split) (split subject) := by
  rw [accepted, any_map]
  rfl

/-- A filter below the inbox of a client without wildcards in its name stays in there. -/
theorem inbox_of_matches (belongs : inboxBelongsTo filter clientId = true)
    (plain : '*' ∉ clientId.toList) (matched : subjectMatches filter subject = true) :
    inboxBelongsTo subject clientId = true := by
  obtain ⟨rest, tokens⟩ := inboxBelongsTo_iff.mp belongs
  have named : ∀ token ∈ split clientId, '*' ∉ token.toList := by
    intro token member star
    exact plain ((mem_split_iff (by decide)).mp ⟨token, member, star⟩)
  have fixed : ∀ token ∈ ["_MORROW", "INBOX"], '*' ∉ token.toList := by decide
  have literals : ∀ token ∈ ["_MORROW", "INBOX"] ++ split clientId, token ≠ "*" ∧ token ≠ "**" := by
    intro token member
    have starless : '*' ∉ token.toList := by
      rcases mem_append.mp member with front | name
      · exact fixed token front
      · exact named token name
    constructor
    · rintro rfl
      exact starless (by decide)
    · rintro rfl
      exact starless (by decide)
  rw [subjectMatches, tokens] at matched
  obtain ⟨later, same, _⟩ := matchTokens_literals literals matched
  exact inboxBelongsTo_iff.mpr ⟨later, same⟩

/-- No subject is in the inbox of a client with a wildcard in its name. -/
theorem not_inbox_of_star (star : '*' ∈ clientId.toList)
    (valid : Subject.validateSubject subject = true) : inboxBelongsTo subject clientId = false := by
  rw [← Bool.not_eq_true, inboxBelongsTo_iff]
  rintro ⟨rest, tokens⟩
  obtain ⟨token, member, inside⟩ := (Subject.mem_split_iff (by decide)).mpr star
  have literal := Subject.validateSubject_iff.mp valid token (by
    rw [tokens]
    exact mem_append_left _ (mem_append_right _ member))
  simp [Subject.literal, inside] at literal

variable {lists : List (List String)} {spelled rest : List String}

/-- Where a fresh token was filled in for a wildcard, it is none with a given letter. -/
theorem eq_of_filled_cons {token : String} (letter : 'O' ∈ token.toList)
    (tokens : filled (freshToken lists) spelled = token :: rest) :
    ∃ others, spelled = token :: others ∧ filled (freshToken lists) others = rest := by
  have fresh : freshToken lists ≠ token := by
    rintro rfl
    rw [freshToken, String.toList_ofList] at letter
    exact absurd (eq_of_mem_replicate letter) (by decide)
  obtain ⟨first, others, rfl, same, remaining⟩ := map_eq_cons_iff.mp tokens
  by_cases wildcard : first = "*"
  · rw [if_pos wildcard] at same
    exact absurd same fresh
  · rw [if_neg wildcard] at same
    exact ⟨others, by rw [same], remaining⟩

/-- A filter is below the inboxes if a subject is that writes out its wildcards. -/
theorem inbox_of_spells (spells : Subject.Spells (split filter) spelled) (some_ : rest ≠ [])
    (tokens : filled (freshToken lists) spelled = "_MORROW" :: "INBOX" :: rest) :
    isInboxSubscription filter = true := by
  obtain ⟨others, rfl, second⟩ := eq_of_filled_cons (by decide) tokens
  obtain ⟨more, rfl, third⟩ := eq_of_filled_cons (by decide) second
  have below : ∃ later, later ≠ [] ∧ split filter = ["_MORROW", "INBOX"] ++ later := by
    rcases spells with same | ⟨front, depth, open_, same⟩
    · refine ⟨more, ?_, same.symm⟩
      rintro rfl
      exact some_ third.symm
    · have star : ∀ token : String, token ≠ "*" → ∀ start, token :: start ≠
          List.replicate depth "*" := by
        intro token other start replicated
        exact other (eq_of_mem_replicate (replicated ▸ mem_cons_self))
      match front, same with
      | [], same => exact absurd same (star _ (by decide) _)
      | [_], same => exact absurd (List.cons.inj same).2 (star _ (by decide) _)
      | first :: second :: later, same =>
        obtain ⟨firstSame, remaining⟩ := List.cons.inj same
        obtain ⟨secondSame, _⟩ := List.cons.inj remaining
        rw [← firstSame, ← secondSame] at open_
        exact ⟨later ++ ["**"], by simp, open_⟩
  obtain ⟨later, nonempty, whole⟩ := below
  have joins := congrArg joined whole
  rw [joined_split, joined_append (cons_ne_nil _ _) nonempty] at joins
  rw [isInboxSubscription_iff, Text.startsWith_iff, joins]
  exact ⟨(joined later).toList, by simp [inboxFront, joined]⟩

/-- A subscription that was let through reads only what its client may read, exactly if it
is the inbox of a client without wildcards in its name, or if the patterns cover the
filter. -/
theorem subscription_sound_iff {access : AccessControl} {connectionId : ℕ}
    {config : AuthClientConfig}
    (reader : AccessControl.Reader access connectionId clientId config patterns)
    (valid : validateSubscription filter = true)
    (allowed : access.checkSubscribeAuthorization connectionId filter = .ok ()) :
    (∀ subject, validateSubject subject = true →
      subjectMatches filter subject = true → mayRead patterns clientId subject = true) ↔
    (isInboxSubscription filter = true ∧ '*' ∉ clientId.toList) ∨
      covered (patterns.map split) (split filter) = true := by
  have tokensValid := validTokens_of_valid valid
  constructor
  · intro sound
    rw [or_iff_not_imp_left]
    intro notOwn
    apply covered_of_fresh tokensValid (split_ne_nil filter) (fun _ => not_mem_split)
    intro spelled spells concrete matched
    have tokens := split_joined concrete.some_ concrete.plain
    have subject := validateSubject_joined concrete
    have readable := sound _ subject (by rwa [subjectMatches, tokens])
    rw [mayRead, Bool.or_eq_true, patterns_any_iff, tokens] at readable
    rcases readable with accepts | inbox
    · exact accepts
    · exfalso
      obtain ⟨rest, whole⟩ := inboxBelongsTo_iff.mp inbox
      rw [tokens] at whole
      have isInbox := inbox_of_spells spells (by simp [split_ne_nil]) whole
      by_cases star : '*' ∈ clientId.toList
      · rw [not_inbox_of_star star subject] at inbox
        cases inbox
      · exact notOwn ⟨isInbox, star⟩
  · rintro (⟨inbox, plain⟩ | covers) subject concrete matched
    · rw [mayRead, Bool.or_eq_true]
      rcases AccessControl.checkAuthorization_ok reader.toIdentified allowed with
        ⟨_, belongs⟩ | ⟨other, _⟩
      · exact .inr (inbox_of_matches belongs plain matched)
      · rw [inbox] at other
        cases other
    · rw [mayRead, Bool.or_eq_true, patterns_any_iff]
      exact .inl (accepted_of_covered tokensValid covers (split_ne_nil subject) matched)

end Readers

/-- One client that may read the orders one level down. -/
def ordersAccess : AccessControl where
  auth := ⟨true, .ofList [("reader",
    ⟨some ⟨none, some ["orders/*"]⟩, "default", "default", none, none⟩)]⟩
  policy := ⟨1, .ofList [("member", ⟨"member", {.publish, .subscribe}⟩)],
    [⟨"reader", ⟨"default", "default"⟩, "member", none⟩]⟩
  clients := .ofList [(1, ⟨true, some "reader", true, 30000, 1024, 1, "default", ⟨1, 0, 0, 0, 0⟩⟩)]
  nowMs := 0

theorem ordersAccess_reader : AccessControl.Reader ordersAccess 1 "reader"
    ⟨some ⟨none, some ["orders/*"]⟩, "default", "default", none, none⟩ ["orders/*"] :=
  ⟨⟨rfl, by decide, by decide⟩, rfl⟩

theorem subscription_sound_orders :
    ordersAccess.checkSubscribeAuthorization 1 "orders/*" = .ok () ∧
      mayRead ["orders/*"] "reader" "orders/new" = true := by
  have allowed : ordersAccess.checkSubscribeAuthorization 1 "orders/*" = .ok () := by decide
  refine ⟨allowed, ?_⟩
  have sound := (subscription_sound_iff ordersAccess_reader (by decide) allowed).mpr
    (.inr (by decide))
  exact sound "orders/new" (by decide) (by decide)

/-- The pattern `orders/*` matches the text `orders/**`, which stands for more. -/
theorem open_filter_unsound : ordersAccess.checkSubscribeAuthorization 1 "orders/**" = .ok () ∧
    validateSubscription "orders/**" = true ∧
    validateSubject "orders/a/b" = true ∧
    subjectMatches "orders/**" "orders/a/b" = true ∧
    mayRead ["orders/*"] "reader" "orders/a/b" = false := by
  decide

end Morrow
