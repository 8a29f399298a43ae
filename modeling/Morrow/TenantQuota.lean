import Morrow.Machine
import Morrow.OrderedMap

/-!
# The quotas of tenants

Connections, memory, disk space and tasks are accounted to tenants. A request is taken if
it stays within all of the tenant's limits, and given back when it is not needed any more.
Giving back more than there is leaves nothing.
-/

namespace Morrow

open OrderedMap

structure TenantQuotaUsage where
  connections : ℕ
  memoryBytes : ℕ
  diskBytes : ℕ
  tasks : ℕ
  backgroundTasks : ℕ
deriving DecidableEq

structure TenantQuotaLimits where
  maxConnections : ℕ
  maxMemoryBytes : ℕ
  maxDiskBytes : ℕ
  maxTasks : ℕ
  maxBackgroundTasks : ℕ

def defaultTenant : String := "default"

namespace TenantQuotaUsage

def none_ : TenantQuotaUsage := ⟨0, 0, 0, 0, 0⟩

/-- One task. -/
def task : TenantQuotaUsage := { none_ with tasks := 1 }

def add (usage request : TenantQuotaUsage) : TenantQuotaUsage :=
  ⟨usage.connections + request.connections, usage.memoryBytes + request.memoryBytes,
    usage.diskBytes + request.diskBytes, usage.tasks + request.tasks,
    usage.backgroundTasks + request.backgroundTasks⟩

/-- Subtraction ends at zero. -/
def sub (usage request : TenantQuotaUsage) : TenantQuotaUsage :=
  ⟨usage.connections - request.connections, usage.memoryBytes - request.memoryBytes,
    usage.diskBytes - request.diskBytes, usage.tasks - request.tasks,
    usage.backgroundTasks - request.backgroundTasks⟩

def Covers (usage request : TenantQuotaUsage) : Prop :=
  request.connections ≤ usage.connections ∧ request.memoryBytes ≤ usage.memoryBytes ∧
    request.diskBytes ≤ usage.diskBytes ∧ request.tasks ≤ usage.tasks ∧
    request.backgroundTasks ≤ usage.backgroundTasks
deriving Decidable

def Fits (limits : TenantQuotaLimits) (usage request : TenantQuotaUsage) : Prop :=
  saturatingAdd usage.connections request.connections ≤ limits.maxConnections ∧
    saturatingAdd usage.memoryBytes request.memoryBytes ≤ limits.maxMemoryBytes ∧
    saturatingAdd usage.diskBytes request.diskBytes ≤ limits.maxDiskBytes ∧
    saturatingAdd usage.tasks request.tasks ≤ limits.maxTasks ∧
    saturatingAdd usage.backgroundTasks request.backgroundTasks ≤ limits.maxBackgroundTasks
deriving Decidable

end TenantQuotaUsage

structure TenantQuotaRuntime where
  defaultLimits : TenantQuotaLimits
  limits : OrderedMap String TenantQuotaLimits
  usage : OrderedMap String TenantQuotaUsage

namespace TenantQuotaRuntime

variable (runtime : TenantQuotaRuntime) (tenant : String)

def limitsFor : TenantQuotaLimits :=
  (runtime.limits.get? tenant).getD runtime.defaultLimits

def usageOf : TenantQuotaUsage :=
  (runtime.usage.get? tenant).getD .none_

variable (request : TenantQuotaUsage)

/-- A tenant that asks has an entry from then on, whether it is refused or not. -/
def tryReserve (runtime : TenantQuotaRuntime) :
    TenantQuotaRuntime × Bool :=
  let usage := runtime.usageOf tenant
  if usage.Fits (runtime.limitsFor tenant) request then
    ({ runtime with usage := runtime.usage.insert tenant (usage.add request) }, true)
  else ({ runtime with usage := runtime.usage.insert tenant usage }, false)

def release (runtime : TenantQuotaRuntime) :
    TenantQuotaRuntime :=
  { runtime with usage := runtime.usage.modify tenant (·.sub request) }

def transfer (source target : String) (request : TenantQuotaUsage)
    (runtime : TenantQuotaRuntime) : TenantQuotaRuntime × Bool :=
  if source = target then (runtime, true)
  else if (runtime.usageOf source).Covers request ∧
      (runtime.usageOf target).Fits (runtime.limitsFor target) request then
    let taken := runtime.usage.insert source ((runtime.usageOf source).sub request)
    ({ runtime with usage := taken.insert target ((runtime.usageOf target).add request) }, true)
  else (runtime, false)

/-! ### What the calls do to a usage -/

section Usage

variable (runtime : TenantQuotaRuntime) (tenant tested : String) (request : TenantQuotaUsage)

theorem usageOf_insert (usage : TenantQuotaUsage) :
    usageOf { runtime with usage := runtime.usage.insert tenant usage } tested =
      if tested = tenant then usage else runtime.usageOf tested := by
  unfold usageOf
  rw [get?_insert]
  split <;> rfl

theorem tryReserve_granted : (tryReserve tenant request runtime).2 = true ↔
    (runtime.usageOf tenant).Fits (runtime.limitsFor tenant) request := by
  simp only [tryReserve]
  split <;> simp_all

theorem transfer_granted {source target : String} (differ : source ≠ target) :
    (transfer source target request runtime).2 = true ↔
      (runtime.usageOf source).Covers request ∧
        (runtime.usageOf target).Fits (runtime.limitsFor target) request := by
  rw [transfer, if_neg differ]
  split <;> simp_all

/-- A reservation counts if it is taken. -/
theorem usageOf_tryReserve : usageOf (tryReserve tenant request runtime).1 tested =
    if (tryReserve tenant request runtime).2 = true ∧ tested = tenant then
      (runtime.usageOf tested).add request
    else runtime.usageOf tested := by
  unfold tryReserve
  by_cases fits : (runtime.usageOf tenant).Fits (runtime.limitsFor tenant) request
  · by_cases same : tested = tenant <;> simp [fits, usageOf_insert, same]
  · by_cases same : tested = tenant <;> simp [fits, usageOf_insert, same]

theorem usageOf_release : usageOf (release tenant request runtime) tested =
    if tested = tenant then (runtime.usageOf tested).sub request else runtime.usageOf tested := by
  unfold release usageOf
  rw [get?_modify]
  split
  · cases runtime.usage.get? tested with
    | none => simp [TenantQuotaUsage.sub, TenantQuotaUsage.none_]
    | some usage => rfl
  · rfl

theorem usageOf_transfer (source target : String) :
    usageOf (transfer source target request runtime).1 tested =
      if (transfer source target request runtime).2 = true ∧ source ≠ target then
        if tested = target then (runtime.usageOf tested).add request
        else if tested = source then (runtime.usageOf tested).sub request
        else runtime.usageOf tested
      else runtime.usageOf tested := by
  unfold transfer
  split
  · simp_all
  · split
    · simp only [usageOf, get?_insert]
      grind
    · rfl

def tasks (runtime : TenantQuotaRuntime) (tenant : String) : ℕ := (runtime.usageOf tenant).tasks

theorem tasks_tryReserve : tasks (tryReserve tenant request runtime).1 tested =
    runtime.tasks tested +
      if (tryReserve tenant request runtime).2 = true ∧ tested = tenant then request.tasks
      else 0 := by
  rw [tasks, usageOf_tryReserve]
  split <;> rfl

theorem tasks_release : tasks (release tenant request runtime) tested =
    runtime.tasks tested - if tested = tenant then request.tasks else 0 := by
  rw [tasks, usageOf_release]
  split <;> rfl

/-- Moving connections from one tenant to another moves no tasks. -/
theorem tasks_transfer (source target : String) (taskless : request.tasks = 0) :
    tasks (transfer source target request runtime).1 tested = runtime.tasks tested := by
  rw [tasks, usageOf_transfer]
  split
  · split
    · simp [tasks, TenantQuotaUsage.add, taskless]
    · split
      · simp [tasks, TenantQuotaUsage.sub, taskless]
      · rfl
  · rfl

end Usage

end TenantQuotaRuntime

end Morrow
