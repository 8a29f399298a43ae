import Morrow.OrderedMap

/-!
# Totals over the entries of a map

Every entry of a map has a weight. The total changes with an entry by the difference of
its weights, however the entry was changed: added, replaced or removed.
-/

namespace Morrow.OrderedMap

open List

variable {κ ν μ : Type} [LinearOrder κ]

def total (weight : κ → ν → ℕ) (map : OrderedMap κ ν) : ℕ :=
  (map.entries.map fun entry => weight entry.1 entry.2).sum

/-- The weight at a key, which is none without an entry. -/
def weightAt (weight : κ → ν → ℕ) (map : OrderedMap κ ν) (key : κ) : ℕ :=
  (map.get? key).elim 0 (weight key)

variable (weight : κ → ν → ℕ) (map : OrderedMap κ ν)

theorem total_eq_sum :
    map.total weight = ∑ key ∈ map.keys.toFinset, map.weightAt weight key := by
  have distinct : map.keys.Nodup := map.keys_increasing.imp fun below => ne_of_lt below
  rw [sum_toFinset _ distinct, keys, map_map, total]
  congr 1
  apply map_congr_left
  intro entry member
  rw [Function.comp_apply, weightAt, mem_entries.mp member]
  rfl

/-- Keys without an entry may be counted as well. -/
theorem total_eq_sum_of_subset {all : Finset κ}
    (inside : map.keys.toFinset ⊆ all) :
    map.total weight = ∑ key ∈ all, map.weightAt weight key := by
  rw [total_eq_sum]
  apply Finset.sum_subset inside
  intro key _ absent
  have none : map.get? key = none := by
    rw [Option.eq_none_iff_forall_ne_some]
    intro value present
    exact absent (mem_toFinset.mpr (mem_keys.mpr ⟨value, present⟩))
  rw [weightAt, none]
  rfl

/-- Maps that differ in one entry have totals that differ by its weights. -/
theorem total_exchange {left right : OrderedMap κ ν} (key : κ)
    (agree : ∀ other, other ≠ key → left.get? other = right.get? other) :
    left.total weight + right.weightAt weight key =
      right.total weight + left.weightAt weight key := by
  let all : Finset κ := {key} ∪ (left.keys.toFinset ∪ right.keys.toFinset)
  have present : key ∈ all := by simp [all]
  have leftInside : left.keys.toFinset ⊆ all := fun other member => by
    simp only [all, Finset.mem_union, member, true_or, or_true]
  have rightInside : right.keys.toFinset ⊆ all := fun other member => by
    simp only [all, Finset.mem_union, member, or_true]
  have others : ∑ other ∈ all.erase key, left.weightAt weight other =
      ∑ other ∈ all.erase key, right.weightAt weight other := by
    apply Finset.sum_congr rfl
    intro other member
    rw [weightAt, weightAt, agree other (Finset.ne_of_mem_erase member)]
  rw [total_eq_sum_of_subset weight left leftInside,
    total_eq_sum_of_subset weight right rightInside,
    ← Finset.add_sum_erase _ _ present, ← Finset.add_sum_erase _ _ present]
  omega

theorem weightAt_key (weight : κ → ℕ) (map : OrderedMap κ ν) (key : κ) :
    map.weightAt (fun key _ => weight key) key = if map.contains key then weight key else 0 := by
  rw [weightAt, contains]
  cases map.get? key <;> rfl

theorem total_insert (key : κ) (value : ν) :
    (map.insert key value).total weight + map.weightAt weight key =
      map.total weight + weight key value := by
  have exchanged := total_exchange weight key fun other distinct =>
    get?_insert_of_ne map value distinct
  rwa [weightAt, weightAt, get?_insert_self] at exchanged

theorem total_erase (key : κ) :
    (map.erase key).total weight + map.weightAt weight key = map.total weight := by
  have others : ∀ other, other ≠ key → (map.erase key).get? other = map.get? other :=
    fun other distinct => by rw [get?_erase, if_neg distinct]
  have exchanged := total_exchange weight key others
  have nothing : (map.erase key).weightAt weight key = 0 := by
    rw [weightAt, get?_erase, if_pos rfl, Option.elim_none]
  rw [exchanged, nothing, Nat.add_zero]

variable {weight : κ → ν → ℕ} {map : OrderedMap κ ν}

/-- A value may be replaced by one of the same weight. -/
theorem total_modify {key : κ} {change : ν → ν}
    (same : ∀ value, weight key (change value) = weight key value) :
    (map.modify key change).total weight = map.total weight := by
  cases found : map.get? key with
  | none =>
    rw [modify, found]
  | some value =>
    have inserted := total_insert weight map key (change value)
    rw [weightAt, found, same] at inserted
    rw [modify, found]
    exact Nat.add_right_cancel inserted

theorem weightAt_le_total (weight : κ → ν → ℕ) (map : OrderedMap κ ν) (key : κ) :
    map.weightAt weight key ≤ map.total weight := by
  rw [← total_erase weight map key]
  exact Nat.le_add_left _ _

variable {first second : κ → ν → ℕ}

theorem total_congr
    (same : ∀ key value, map.get? key = some value → first key value = second key value) :
    map.total first = map.total second := by
  rw [total]
  congr 1
  apply map_congr_left
  rintro ⟨key, value⟩ member
  exact same key value (mem_entries.mp member)

theorem total_mapValues (weight : κ → μ → ℕ) (map : OrderedMap κ ν) (change : κ → ν → μ) :
    (map.mapValues change).total weight =
      map.total fun key value => weight key (change key value) := by
  rw [total, mapValues, map_map]
  rfl

/-- What is left out weighs nothing. -/
theorem total_retain (weight : κ → ν → ℕ) (map : OrderedMap κ ν) (keep : κ → ν → Bool) :
    (map.retain keep).total weight =
      map.total fun key value => if keep key value then weight key value else 0 := by
  change ((map.entries.filter fun entry => keep entry.1 entry.2).map
    fun entry => weight entry.1 entry.2).sum = _
  rw [total]
  generalize map.entries = entries
  induction entries with
  | nil => rfl
  | cons entry entries ih =>
    rw [filter_cons, map_cons, sum_cons, ← ih]
    by_cases kept : keep entry.1 entry.2 = true
    · rw [if_pos kept, if_pos kept, map_cons, sum_cons]
    · rw [if_neg kept, if_neg kept, zero_add]

/-- Entries that weigh more by the same amount are counted. -/
theorem total_add_count {more : κ → ν → Bool} {amount : ℕ}
    (each : ∀ key value,
      first key value + (if more key value then amount else 0) = second key value) :
    map.total first + map.entries.countP (fun entry => more entry.1 entry.2) * amount =
      map.total second := by
  rw [total, total]
  induction map.entries with
  | nil => simp
  | cons entry entries ih =>
    have here := each entry.1 entry.2
    rw [map_cons, map_cons, sum_cons, sum_cons, countP_cons, Nat.add_mul]
    by_cases counted : more entry.1 entry.2 = true
    · rw [if_pos counted] at here ⊢
      omega
    · rw [if_neg counted] at here ⊢
      omega

theorem countP_values (test : ν → Bool) :
    map.values.countP test = map.entries.countP fun entry => test entry.2 := countP_map

theorem total_eq_zero (weightless : ∀ key value, map.get? key = some value → weight key value = 0) :
    map.total weight = 0 := by
  apply sum_eq_zero
  simp only [mem_map]
  rintro _ ⟨entry, member, rfl⟩
  exact weightless entry.1 entry.2 (mem_entries.mp member)

end Morrow.OrderedMap
