import Morrow.GuardedRuns
import Morrow.TenantQuota
import Morrow.Totals

/-!
# Runs of the quota table

The usage of every tenant stays within its limits, whichever calls are made in whichever
order, as long as only that is given back which was reserved. What a tenant holds is
counted beside the table, by the calls that were granted. An addition that is too large
for a machine word ends the process, so the calls of a run are those after which all
counters are machine words.
-/

namespace Morrow

open GuardedRuns OrderedMap

/-- The limits of the machine. -/
def TenantQuotaLimits.machineWords : TenantQuotaLimits :=
  ⟨u64Max, u64Max, u64Max, u64Max, u64Max⟩

namespace TenantQuotaUsage

def Within (limits : TenantQuotaLimits) (usage : TenantQuotaUsage) : Prop :=
  usage.connections ≤ limits.maxConnections ∧ usage.memoryBytes ≤ limits.maxMemoryBytes ∧
    usage.diskBytes ≤ limits.maxDiskBytes ∧ usage.tasks ≤ limits.maxTasks ∧
    usage.backgroundTasks ≤ limits.maxBackgroundTasks
deriving Decidable

def dimensions : List (TenantQuotaUsage → ℕ) :=
  [(·.connections), (·.memoryBytes), (·.diskBytes), (·.tasks), (·.backgroundTasks)]

variable {limits : TenantQuotaLimits} {usage request : TenantQuotaUsage}

theorem Within.add (fits : usage.Fits limits request)
    (word : (usage.add request).Within .machineWords) : (usage.add request).Within limits := by
  simp only [Within, Fits, TenantQuotaUsage.add, TenantQuotaLimits.machineWords,
    saturatingAdd] at fits word ⊢
  omega

theorem Within.sub (within : usage.Within limits) : (usage.sub request).Within limits := by
  simp only [Within, TenantQuotaUsage.sub] at within ⊢
  omega

variable (usage request) in
/-- A dimension is counted by itself. -/
theorem dimension_linear {measure : TenantQuotaUsage → ℕ} (member : measure ∈ dimensions) :
    measure none_ = 0 ∧ measure (usage.add request) = measure usage + measure request ∧
      (usage.Covers request → measure (usage.sub request) + measure request = measure usage) := by
  simp only [dimensions, List.mem_cons, List.not_mem_nil, or_false] at member
  rcases member with rfl | rfl | rfl | rfl | rfl <;>
    refine ⟨rfl, rfl, fun covers => Nat.sub_add_cancel ?_⟩ <;> unfold Covers at covers <;> omega

end TenantQuotaUsage

inductive QuotaCall
  | tryReserve (tenant : String) (request : TenantQuotaUsage)
  | release (tenant : String) (request : TenantQuotaUsage)
  | transfer (source target : String) (request : TenantQuotaUsage)

namespace QuotaCall

/-- A release has no answer; it is always granted. -/
def perform (runtime : TenantQuotaRuntime) : QuotaCall → TenantQuotaRuntime × Bool
  | tryReserve tenant request => runtime.tryReserve tenant request
  | release tenant request => (runtime.release tenant request, true)
  | transfer source target request => runtime.transfer source target request

/-- What a tenant holds after a call that was granted or not. -/
def moved (granted : Bool) (tenant : String) (usage : TenantQuotaUsage) :
    QuotaCall → TenantQuotaUsage
  | tryReserve owner request =>
    if granted ∧ tenant = owner then usage.add request else usage
  | release owner request => if tenant = owner then usage.sub request else usage
  | transfer source target request =>
    if granted ∧ source ≠ target then
      if tenant = target then usage.add request
      else if tenant = source then usage.sub request else usage
    else usage

/-- What the call takes from a tenant. -/
def takes : QuotaCall → Option (String × TenantQuotaUsage)
  | tryReserve _ _ => none
  | release tenant request => some (tenant, request)
  | transfer source target request => if source = target then none else some (source, request)

variable (runtime : TenantQuotaRuntime) (call : QuotaCall) (tenant : String)

theorem usageOf_perform : (call.perform runtime).1.usageOf tenant =
    call.moved (call.perform runtime).2 tenant (runtime.usageOf tenant) := by
  cases call with
  | tryReserve owner request => exact runtime.usageOf_tryReserve owner tenant request
  | release owner request => exact runtime.usageOf_release owner tenant request
  | transfer source target request => exact runtime.usageOf_transfer tenant request source target

theorem limitsFor_perform :
    (call.perform runtime).1.limitsFor tenant = runtime.limitsFor tenant := by
  unfold perform TenantQuotaRuntime.tryReserve TenantQuotaRuntime.transfer
  grind [TenantQuotaRuntime.limitsFor, TenantQuotaRuntime.release]

variable {runtime call tenant}

/-- A call keeps a usage within the limits. -/
theorem within_perform
    (within : (runtime.usageOf tenant).Within (runtime.limitsFor tenant))
    (word : ((call.perform runtime).1.usageOf tenant).Within .machineWords) :
    ((call.perform runtime).1.usageOf tenant).Within (runtime.limitsFor tenant) := by
  rw [usageOf_perform] at word ⊢
  cases call with
  | tryReserve owner request =>
    by_cases taken : ((tryReserve owner request).perform runtime).2 = true ∧ tenant = owner
    · simp only [moved] at word ⊢
      rw [if_pos taken] at word ⊢
      obtain ⟨granted, rfl⟩ := taken
      exact .add ((runtime.tryReserve_granted _ _).mp granted) word
    · simp only [moved]
      rw [if_neg taken]
      exact within
  | release owner request =>
    simp only [moved]
    split
    · exact within.sub
    · exact within
  | transfer source target request =>
    by_cases taken : ((transfer source target request).perform runtime).2 = true ∧ source ≠ target
    · simp only [moved] at word ⊢
      rw [if_pos taken] at word ⊢
      have fits := (runtime.transfer_granted request taken.2).mp taken.1
      by_cases atTarget : tenant = target
      · rw [if_pos atTarget] at word ⊢
        rw [atTarget] at word ⊢
        exact .add fits.2 word
      · rw [if_neg atTarget]
        split
        · exact within.sub
        · exact within
    · simp only [moved]
      rw [if_neg taken]
      exact within

end QuotaCall

theorem TenantQuotaRuntime.total_transfer (runtime : TenantQuotaRuntime) (source target : String)
    (request : TenantQuotaUsage) {measure : TenantQuotaUsage → ℕ}
    (member : measure ∈ TenantQuotaUsage.dimensions) :
    (runtime.transfer source target request).1.usage.total (fun _ => measure) =
      runtime.usage.total fun _ => measure := by
  have linear := fun usage : TenantQuotaUsage => usage.dimension_linear request member
  have weight : ∀ tenant, runtime.usage.weightAt (fun _ => measure) tenant =
      measure (runtime.usageOf tenant) := by
    intro tenant
    unfold weightAt usageOf
    cases runtime.usage.get? tenant with
    | none => exact (linear .none_).1.symm
    | some usage => rfl
  unfold transfer
  split
  · rfl
  · rename_i differ
    split
    · rename_i fits
      have taken := total_insert (fun _ => measure) runtime.usage source
        ((runtime.usageOf source).sub request)
      have given := total_insert (fun _ => measure)
        (runtime.usage.insert source ((runtime.usageOf source).sub request)) target
        ((runtime.usageOf target).add request)
      have other : (runtime.usage.insert source ((runtime.usageOf source).sub request)).weightAt
          (fun _ => measure) target = measure (runtime.usageOf target) := by
        rw [weightAt, get?_insert_of_ne _ _ (Ne.symm differ)]
        exact weight target
      have covered := (linear (runtime.usageOf source)).2.2 fits.1
      rw [(linear _).2.1] at given
      rw [weight] at taken
      simp only
      omega
    · rfl

/-- The table and what the tenants hold by the calls so far. -/
structure QuotaRun where
  runtime : TenantQuotaRuntime
  held : String → TenantQuotaUsage

namespace QuotaRun

def next (run : QuotaRun) (call : QuotaCall) : QuotaRun where
  runtime := (call.perform run.runtime).1
  held tenant := call.moved (call.perform run.runtime).2 tenant (run.held tenant)

/-- A release gives back what the tenant holds, and the counters stay machine words. -/
def Admits (run : QuotaRun) (call : QuotaCall) : Prop :=
  (∀ tenant request, call = .release tenant request → (run.held tenant).Covers request) ∧
    ∀ tenant, ((run.next call).runtime.usageOf tenant).Within .machineWords

/-- The table counts what the tenants hold, within the limits. -/
structure Sound (run : QuotaRun) : Prop where
  agrees : run.runtime.usageOf = run.held
  within : ∀ tenant, (run.runtime.usageOf tenant).Within (run.runtime.limitsFor tenant)

variable {run : QuotaRun} {call : QuotaCall}

theorem Sound.next (sound : run.Sound) (admits : run.Admits call) : (run.next call).Sound := by
  constructor
  · funext tenant
    rw [QuotaRun.next, QuotaCall.usageOf_perform, sound.agrees]
  · intro tenant
    rw [QuotaRun.next, QuotaCall.limitsFor_perform]
    exact QuotaCall.within_perform (sound.within tenant) (admits.2 tenant)

/-- A granted call takes no more from a counter than there is. -/
theorem Sound.covers (sound : run.Sound) (admits : run.Admits call)
    (granted : (call.perform run.runtime).2 = true) {tenant : String}
    {request : TenantQuotaUsage} (takes : call.takes = some (tenant, request)) :
    (run.runtime.usageOf tenant).Covers request := by
  cases call with
  | tryReserve owner request => cases takes
  | release owner given =>
    cases takes
    rw [sound.agrees]
    exact admits.1 tenant request rfl
  | transfer source target given =>
    by_cases same : source = target
    · rw [QuotaCall.takes, if_pos same] at takes
      cases takes
    · rw [QuotaCall.takes, if_neg same] at takes
      cases takes
      exact ((run.runtime.transfer_granted _ same).mp granted).1

/-- In every run the usages are within their limits, a refused call changes no usage, no
counter goes below zero, and a transfer keeps the sum over all tenants. -/
theorem usage_bounded (defaults : TenantQuotaLimits) (limits : OrderedMap String TenantQuotaLimits)
    (reached : Reaches next Admits ⟨⟨defaults, limits, ∅⟩, fun _ => .none_⟩ run) :
    (∀ tenant, (run.runtime.usageOf tenant).Within (run.runtime.limitsFor tenant)) ∧
    ∀ call, run.Admits call →
      ((call.perform run.runtime).2 = false →
        (call.perform run.runtime).1.usageOf = run.runtime.usageOf) ∧
      ((call.perform run.runtime).2 = true → ∀ tenant request,
        call.takes = some (tenant, request) → (run.runtime.usageOf tenant).Covers request) ∧
      ∀ source target request, call = .transfer source target request →
        ∀ measure ∈ TenantQuotaUsage.dimensions,
          (call.perform run.runtime).1.usage.total (fun _ => measure) =
            run.runtime.usage.total fun _ => measure := by
  have sound : run.Sound := by
    apply reached.invariant Sound fun _ _ admits sound => sound.next admits
    constructor
    · rfl
    · simp [TenantQuotaRuntime.usageOf, TenantQuotaUsage.Within, TenantQuotaUsage.none_]
  refine ⟨sound.within, fun call admits => ⟨?_, ?_, ?_⟩⟩
  · intro refused
    funext tenant
    rw [QuotaCall.usageOf_perform]
    cases call <;> simp_all [QuotaCall.moved, QuotaCall.perform]
  · exact fun granted tenant request takes => sound.covers admits granted takes
  · rintro source target request rfl measure member
    exact run.runtime.total_transfer source target request member

def connection : TenantQuotaUsage := ⟨1, 0, 0, 0, 0⟩

/-- Every tenant may have one connection. -/
def unused : QuotaRun := ⟨⟨⟨1, 0, 0, 0, 0⟩, ∅, ∅⟩, fun _ => .none_⟩

/-- A connection is handed on to another tenant, replaced and given back. -/
def handOn : List QuotaCall :=
  [.tryReserve "a" connection, .transfer "a" "b" connection, .tryReserve "a" connection,
    .release "b" connection]

theorem usage_bounded_handed_on :
    let run := handOn.foldl next unused
    run.runtime.usageOf "a" = connection ∧ run.runtime.usageOf "b" = .none_ ∧
      ∀ tenant, (run.runtime.usageOf tenant).Within (run.runtime.limitsFor tenant) := by
  have words : ∀ {run : QuotaRun}, (∀ usage ∈ run.runtime.usage.values,
      usage.Within .machineWords) →
      ∀ tenant, (run.runtime.usageOf tenant).Within .machineWords := by
    intro run all tenant
    rw [TenantQuotaRuntime.usageOf]
    cases found : run.runtime.usage.get? tenant with
    | none => exact (by decide : TenantQuotaUsage.none_.Within .machineWords)
    | some usage => exact all usage (mem_values.mpr ⟨tenant, found⟩)
  have run : Reaches next Admits unused (handOn.foldl next unused) := by
    refine .of_admits ⟨⟨?_, words (by decide +kernel)⟩, ⟨?_, words (by decide +kernel)⟩,
      ⟨?_, words (by decide +kernel)⟩, ⟨?_, words (by decide +kernel)⟩, trivial⟩
    all_goals rintro tenant request ⟨⟩
    decide +kernel
  exact ⟨by decide +kernel, by decide +kernel, (usage_bounded _ _ run).1⟩

end QuotaRun

end Morrow
