import Morrow.RaftMetadata
import Morrow.SubjectLanguage

/-!
# Tenants, their scopes and their roles

A client belongs to a tenant and to a namespace of it. The two names, each followed by a
dot, start every subject of that scope. Dots are also allowed inside of the names, so a
scope is recognised by the words between the dots and not by where the tenant ends.
-/

namespace Morrow.Tenancy

open List

def maxIdentifierBytes : ℕ := 128

/-- ASCII letters and digits, and three signs. -/
def isIdentifierChar (symbol : Char) : Bool :=
  symbol.isAlphanum || symbol == '-' || symbol == '_' || symbol == '.'

def validateIdentifier (value kind : String) : Outcome Unit := do
  ensure (value ≠ "" ∧ value.utf8ByteSize ≤ maxIdentifierBytes)
    (kind ++ " identifier must be non-empty and bounded")
  ensure (value.toList.all isIdentifierChar) (kind ++ " identifier contains an invalid character")

theorem validateIdentifier_eq_ok {value kind : String} :
    validateIdentifier value kind = .ok () ↔
      (value ≠ "" ∧ value.utf8ByteSize ≤ maxIdentifierBytes) ∧
        ∀ symbol ∈ value.toList, isIdentifierChar symbol = true := by
  rw [validateIdentifier, bind_eq_ok]
  simp only [ensure_eq_ok, all_eq_true]
  constructor
  · rintro ⟨_, bounded, valid⟩
    exact ⟨bounded, valid⟩
  · rintro ⟨bounded, valid⟩
    exact ⟨(), bounded, valid⟩

structure TenantId where
  text : String
  valid : validateIdentifier text "tenant" = .ok ()
deriving DecidableEq

structure NamespaceId where
  text : String
  valid : validateIdentifier text "namespace" = .ok ()
deriving DecidableEq

def TenantId.new (value : String) : Outcome TenantId :=
  match checked : validateIdentifier value "tenant" with
  | .ok () => .ok ⟨value, checked⟩
  | .error failure => .error failure

def NamespaceId.new (value : String) : Outcome NamespaceId :=
  match checked : validateIdentifier value "namespace" with
  | .ok () => .ok ⟨value, checked⟩
  | .error failure => .error failure

theorem TenantId.new_text (tenant : TenantId) : TenantId.new tenant.text = .ok tenant := by
  unfold TenantId.new
  split
  · rfl
  · rename_i failed
    rw [tenant.valid] at failed
    cases failed

theorem NamespaceId.new_text (nameSpace : NamespaceId) :
    NamespaceId.new nameSpace.text = .ok nameSpace := by
  unfold NamespaceId.new
  split
  · rfl
  · rename_i failed
    rw [nameSpace.valid] at failed
    cases failed

/-! ### Scopes -/

structure ResourceScope where
  tenant : TenantId
  nameSpace : NamespaceId
deriving DecidableEq

namespace ResourceScope

variable (scope : ResourceScope)

/-- What the subjects of a scope start with. -/
def subjectPrefix : String :=
  scope.tenant.text ++ "." ++ scope.nameSpace.text ++ "."

def containsSubject (subject : String) : Bool :=
  Text.startsWith subject scope.subjectPrefix

/-- The words of the tenant's name and of the namespace's. -/
def words : List (List Char) :=
  scope.tenant.text.toList.splitOn '.' ++ scope.nameSpace.text.toList.splitOn '.'

/-- The words of one scope are not the first words of the other. -/
def Separate (first second : ResourceScope) : Prop :=
  ¬ first.words <+: second.words ∧ ¬ second.words <+: first.words

/-- The two names with the dot between them. -/
def name : List Char :=
  scope.tenant.text.toList ++ '.' :: scope.nameSpace.text.toList

variable {scope first second : ResourceScope}

theorem toList_subjectPrefix :
    scope.subjectPrefix.toList = scope.name ++ ['.'] := by
  simp [subjectPrefix, name]

theorem splitOn_name : scope.name.splitOn '.' = scope.words :=
  splitOnP_append_cons _ _ (by rfl)

/-- A scope's subjects are among another's exactly if its words start the other's. -/
theorem subjectPrefix_prefix_iff : first.subjectPrefix.toList <+: second.subjectPrefix.toList ↔
    first.words <+: second.words := by
  rw [toList_subjectPrefix, toList_subjectPrefix, Text.closed_prefix_iff, splitOn_name,
    splitOn_name]

theorem containsSubject_iff {subject : String} : scope.containsSubject subject = true ↔
    scope.subjectPrefix.toList <+: subject.toList := Text.startsWith_iff

/-- No subject is in both scopes exactly if their words tell them apart. -/
theorem disjoint_iff : (∀ subject, ¬ (first.containsSubject subject = true ∧
    second.containsSubject subject = true)) ↔ Separate first second := by
  constructor
  · intro disjoint
    constructor
    · intro starts
      refine disjoint second.subjectPrefix ⟨containsSubject_iff.mpr ?_, containsSubject_iff.mpr ?_⟩
      · exact subjectPrefix_prefix_iff.mpr starts
      · exact prefix_rfl
    · intro starts
      refine disjoint first.subjectPrefix ⟨containsSubject_iff.mpr ?_, containsSubject_iff.mpr ?_⟩
      · exact prefix_rfl
      · exact subjectPrefix_prefix_iff.mpr starts
  · rintro ⟨notFirst, notSecond⟩ subject ⟨here, there⟩
    rcases prefix_or_prefix_of_prefix (containsSubject_iff.mp here)
      (containsSubject_iff.mp there) with starts | starts
    · exact notFirst (subjectPrefix_prefix_iff.mp starts)
    · exact notSecond (subjectPrefix_prefix_iff.mp starts)

/-- The start of a scope's subjects lies inside of a token, and has a dot in it. -/
theorem subjectPrefix_chars :
    '/' ∉ scope.subjectPrefix.toList ∧ '.' ∈ scope.subjectPrefix.toList := by
  have tenant := (validateIdentifier_eq_ok.mp scope.tenant.valid).2 '/'
  have nameSpace := (validateIdentifier_eq_ok.mp scope.nameSpace.valid).2 '/'
  have slash : isIdentifierChar '/' ≠ true := by decide
  rw [toList_subjectPrefix, name]
  constructor
  · simp only [mem_append, mem_cons, not_mem_nil, or_false, not_or]
    exact ⟨⟨fun member => slash (tenant member), by decide, fun member => slash (nameSpace member)⟩,
      by decide⟩
  · exact mem_append_right _ mem_cons_self

end ResourceScope

/-! ### Roles -/

/-- The scope as the bindings name it. -/
def ResourceScope.named (scope : ResourceScope) : Morrow.ResourceScope :=
  ⟨scope.tenant.text, scope.nameSpace.text⟩

variable (policy : PolicySnapshot)

/-- The index of the bindings by subject and scope, which is rebuilt whenever they
change. -/
def bindingsBySubjectScope (subject : String) (scope : ResourceScope) :
    List RoleBinding :=
  policy.bindings.filter fun binding => binding.subject = subject ∧ binding.scope = scope.named

def authorize (subject : String) (scope : ResourceScope)
    (permission : Permission) (nowMs : ℕ) : Outcome Unit :=
  ensure ((bindingsBySubjectScope policy subject scope).any fun binding =>
    binding.expiresAtMs.all (nowMs < ·) &&
      (policy.roles.get? binding.role).any fun role => permission ∈ role.permissions)
    "tenant permission denied"

end Morrow.Tenancy
