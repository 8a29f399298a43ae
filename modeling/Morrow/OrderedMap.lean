import Mathlib

/-!
# Finite maps with ordered keys

A map is its list of entries in strictly increasing key order, so a key occurs
at most once and equal lookups give equal maps. Iteration visits the entries in
key order. The same carrier serves tree maps, whose iteration is ordered, and
hash maps, whose iteration order no caller may rely on.

Lookup, insertion, removal and retention are computed on the entry list and
reasoned about by their lookups alone. Interval queries over natural-number keys
count exactly the present keys; a full count is full coverage of the interval.
-/

namespace Morrow

open List

universe u v w

/-- Entries carry distinct keys in increasing order. -/
structure OrderedMap (κ : Type u) (ν : Type v) [LinearOrder κ] where
  entries : List (κ × ν)
  increasing : entries.Pairwise (fun first second => first.1 < second.1)

namespace OrderedMap

variable {κ : Type u} {ν : Type v} {μ : Type w} [LinearOrder κ]

instance [DecidableEq ν] : DecidableEq (OrderedMap κ ν) := fun left right =>
  decidable_of_iff (left.entries = right.entries) (by
    cases left
    cases right
    simp)

/-- The first value stored under a key. -/
def lookup (key : κ) : List (κ × ν) → Option ν
  | [] => none
  | (candidate, value) :: rest => if key = candidate then some value else lookup key rest

/-- Place an entry at its ordered position, replacing an entry with its key. -/
def place (key : κ) (value : ν) : List (κ × ν) → List (κ × ν)
  | [] => [(key, value)]
  | (candidate, old) :: rest =>
      if key < candidate then (key, value) :: (candidate, old) :: rest
      else if key = candidate then (key, value) :: rest
      else (candidate, old) :: place key value rest

/-- Every key after placement was present before or is the placed key. -/
theorem mem_place (key : κ) (value : ν) (entries : List (κ × ν)) (entry : κ × ν)
    (member : entry ∈ place key value entries) : entry = (key, value) ∨ entry ∈ entries := by
  induction entries with
  | nil => simpa [place] using member
  | cons head rest ih =>
    simp only [place] at member
    split at member
    · simpa using member
    · split at member
      · rcases mem_cons.mp member with same | later
        · exact .inl same
        · exact .inr (mem_cons_of_mem _ later)
      · rcases mem_cons.mp member with same | later
        · exact .inr (same ▸ mem_cons_self)
        · rcases ih later with placed | kept
          · exact .inl placed
          · exact .inr (mem_cons_of_mem _ kept)

/-- Placement keeps the key order. The placed key stands before the first
larger one, replaces its equal, or moves past a smaller head. -/
theorem place_increasing (key : κ) (value : ν) (entries : List (κ × ν))
    (increasing : entries.Pairwise (fun first second => first.1 < second.1)) :
    (place key value entries).Pairwise (fun first second => first.1 < second.1) := by
  induction entries with
  | nil => simp [place]
  | cons head rest ih =>
    obtain ⟨headBelow, restIncreasing⟩ := pairwise_cons.mp increasing
    simp only [place]
    split
    · rename_i below
      refine pairwise_cons.mpr ⟨?_, increasing⟩
      intro entry member
      rcases mem_cons.mp member with rfl | later
      · exact below
      · exact below.trans (headBelow entry later)
    · split
      · rename_i same
        refine pairwise_cons.mpr ⟨?_, restIncreasing⟩
        intro entry later
        exact same ▸ headBelow entry later
      · rename_i notBelow notSame
        refine pairwise_cons.mpr ⟨?_, ih restIncreasing⟩
        intro entry member
        rcases mem_place key value rest entry member with rfl | later
        · exact lt_of_le_of_ne (not_lt.mp notBelow) (Ne.symm notSame)
        · exact headBelow entry later

/-- In key order a lookup finds an entry exactly when the entry is stored. -/
theorem lookup_eq_some (key : κ) (value : ν) (entries : List (κ × ν))
    (increasing : entries.Pairwise (fun first second => first.1 < second.1)) :
    lookup key entries = some value ↔ (key, value) ∈ entries := by
  induction entries with
  | nil => simp [lookup]
  | cons head rest ih =>
    obtain ⟨candidate, old⟩ := head
    obtain ⟨headBelow, restIncreasing⟩ := pairwise_cons.mp increasing
    by_cases same : key = candidate
    · subst same
      have absent : (key, value) ∉ rest := fun later => lt_irrefl key (headBelow _ later)
      simp [lookup, absent, eq_comm]
    · simp [lookup, same, ih restIncreasing]

/-- Placement changes the lookup of its own key alone. -/
theorem lookup_place (key tested : κ) (value : ν) (entries : List (κ × ν)) :
    lookup tested (place key value entries) =
      if tested = key then some value else lookup tested entries := by
  induction entries with
  | nil => simp [place, lookup]
  | cons head rest ih =>
    obtain ⟨candidate, old⟩ := head
    simp only [place]
    split
    · simp [lookup]
    · split
      · rename_i same
        subst same
        by_cases hit : tested = key <;> simp [lookup, hit]
      · rename_i notSame
        by_cases hit : tested = candidate
        · subst hit
          simp [lookup, Ne.symm notSame]
        · simp [lookup, hit, ih]

/-- The map without entries. -/
def empty : OrderedMap κ ν := ⟨[], List.Pairwise.nil⟩

instance : EmptyCollection (OrderedMap κ ν) := ⟨empty⟩

instance : Inhabited (OrderedMap κ ν) := ⟨empty⟩

variable (map : OrderedMap κ ν)

def get? (key : κ) : Option ν := lookup key map.entries

def contains (key : κ) : Bool := (map.get? key).isSome

def insert (key : κ) (value : ν) : OrderedMap κ ν :=
  ⟨place key value map.entries, place_increasing key value map.entries map.increasing⟩

/-- Keep the entries a predicate accepts. -/
def retain (keep : κ → ν → Bool) : OrderedMap κ ν :=
  ⟨map.entries.filter (fun entry => keep entry.1 entry.2), map.increasing.filter _⟩

def erase (key : κ) : OrderedMap κ ν :=
  map.retain (fun candidate _ => decide (candidate ≠ key))

/-- Replace every value by a function of its entry. -/
def mapValues (change : κ → ν → μ) : OrderedMap κ μ :=
  ⟨map.entries.map (fun entry => (entry.1, change entry.1 entry.2)), by
    rw [pairwise_map]
    exact map.increasing⟩

/-- Change the value of a key that is present. -/
def modify (key : κ) (change : ν → ν) : OrderedMap κ ν :=
  match map.get? key with
  | some value => map.insert key (change value)
  | none => map

def keys : List κ := map.entries.map Prod.fst

def values : List ν := map.entries.map Prod.snd

def lastKey? : Option κ := map.keys.getLast?

variable (entries : List (κ × ν))

/-- Build a map from entries in order; a later entry replaces an earlier one
with its key. -/
def ofList : OrderedMap κ ν :=
  entries.foldl (fun map entry => map.insert entry.1 entry.2) ∅

/-- Add the entries of another map, which replace entries with their keys. -/
def extend (map other : OrderedMap κ ν) : OrderedMap κ ν :=
  other.entries.foldl (fun map entry => map.insert entry.1 entry.2) map

variable {map : OrderedMap κ ν} {key : κ}

theorem mem_entries {value : ν} : (key, value) ∈ map.entries ↔ map.get? key = some value :=
  (lookup_eq_some key value map.entries map.increasing).symm

@[simp] theorem get?_empty (key : κ) : (∅ : OrderedMap κ ν).get? key = none := rfl

@[simp] theorem entries_empty : (∅ : OrderedMap κ ν).entries = [] := rfl

theorem get?_insert (map : OrderedMap κ ν) (key tested : κ) (value : ν) :
    (map.insert key value).get? tested = if tested = key then some value else map.get? tested :=
  lookup_place key tested value map.entries

/-- What is found after an insertion is the new value or was there before. -/
theorem get?_insert_eq_some {map : OrderedMap κ ν} {key tested : κ} {value found : ν} :
    (map.insert key value).get? tested = some found ↔
      tested = key ∧ value = found ∨ tested ≠ key ∧ map.get? tested = some found := by
  rw [get?_insert]
  by_cases same : tested = key <;> simp [same]

@[simp] theorem get?_insert_self (map : OrderedMap κ ν) (key : κ) (value : ν) :
    (map.insert key value).get? key = some value := by
  simp [get?_insert]

theorem get?_insert_of_ne (map : OrderedMap κ ν) {tested : κ} (value : ν)
    (distinct : tested ≠ key) : (map.insert key value).get? tested = map.get? tested := by
  simp [get?_insert, distinct]

theorem get?_modify (map : OrderedMap κ ν) (key tested : κ) (change : ν → ν) :
    (map.modify key change).get? tested =
      if tested = key then (map.get? tested).map change else map.get? tested := by
  unfold modify
  split
  · rename_i value present
    rw [get?_insert]
    split
    · rename_i same
      rw [same, present]
      rfl
    · rfl
  · rename_i absent
    split
    · rename_i same
      rw [same, absent]
      rfl
    · rfl

theorem get?_retain (map : OrderedMap κ ν) (keep : κ → ν → Bool) (key : κ) :
    (map.retain keep).get? key = (map.get? key).filter (keep key) := by
  apply Option.ext
  intro value
  rw [← mem_entries, Option.filter_eq_some_iff, ← mem_entries]
  simp [retain]

theorem get?_erase (map : OrderedMap κ ν) (key tested : κ) :
    (map.erase key).get? tested = if tested = key then none else map.get? tested := by
  by_cases same : tested = key
  · simp [erase, get?_retain, same]
  · cases found : map.get? tested <;> simp [erase, get?_retain, same, found]

theorem get?_erase_eq_some {map : OrderedMap κ ν} {key tested : κ} {found : ν} :
    (map.erase key).get? tested = some found ↔ tested ≠ key ∧ map.get? tested = some found := by
  rw [get?_erase]
  by_cases same : tested = key <;> simp [same]

@[simp] theorem get?_mapValues (map : OrderedMap κ ν) (change : κ → ν → μ) (key : κ) :
    (map.mapValues change).get? key = (map.get? key).map (change key) := by
  apply Option.ext
  intro value
  rw [← mem_entries, Option.map_eq_some_iff]
  simp only [mapValues, mem_map, Prod.mk.injEq, Prod.exists]
  constructor
  · rintro ⟨candidate, old, member, rfl, same⟩
    exact ⟨old, mem_entries.mp member, same⟩
  · rintro ⟨old, found, same⟩
    exact ⟨key, old, mem_entries.mpr found, rfl, same⟩

@[simp] theorem lastKey?_mapValues (map : OrderedMap κ ν) (change : κ → ν → μ) :
    (map.mapValues change).lastKey? = map.lastKey? := by
  simp only [lastKey?, keys, mapValues, map_map]
  rfl

theorem entries_nodup (map : OrderedMap κ ν) : map.entries.Nodup := by
  apply map.increasing.imp
  rintro first second below rfl
  exact lt_irrefl _ below

/-- Maps with the same lookups are the same map. Both entry lists are strictly
increasing with the same members, so they agree position by position. -/
theorem ext_get? {left right : OrderedMap κ ν}
    (same : ∀ key, left.get? key = right.get? key) : left = right := by
  have members : ∀ entry, entry ∈ left.entries ↔ entry ∈ right.entries := by
    rintro ⟨key, value⟩
    rw [mem_entries, mem_entries, same]
  have permuted : left.entries.Perm right.entries :=
    (perm_ext_iff_of_nodup left.entries_nodup right.entries_nodup).mpr members
  have equal : left.entries = right.entries :=
    permuted.eq_of_pairwise (fun first second _ _ below above =>
      absurd below (lt_asymm above)) left.increasing right.increasing
  cases left
  cases right
  simpa using equal

/-- Only the last value stored under a key counts. -/
@[simp] theorem insert_insert (map : OrderedMap κ ν) (key : κ) (first second : ν) :
    (map.insert key first).insert key second = map.insert key second := by
  apply ext_get?
  intro tested
  simp only [get?_insert]
  split <;> rfl

theorem mapValues_insert (map : OrderedMap κ ν) (change : κ → ν → μ) (key : κ) (value : ν) :
    (map.insert key value).mapValues change =
      (map.mapValues change).insert key (change key value) := by
  apply ext_get?
  intro tested
  simp only [get?_mapValues, get?_insert]
  split
  · rename_i same
    rw [same]
    rfl
  · rfl

theorem contains_iff : map.contains key = true ↔ ∃ value, map.get? key = some value := by
  simp [contains, Option.isSome_iff_exists]

theorem mem_keys : key ∈ map.keys ↔ ∃ value, map.get? key = some value := by
  simp only [keys, mem_map, Prod.exists, ← mem_entries]
  constructor
  · rintro ⟨candidate, value, member, rfl⟩
    exact ⟨value, member⟩
  · rintro ⟨value, member⟩
    exact ⟨key, value, member, rfl⟩

theorem keys_increasing (map : OrderedMap κ ν) : map.keys.Pairwise (· < ·) := by
  rw [keys, pairwise_map]
  exact map.increasing

/-- There are as many entries as keys. -/
theorem length_entries (map : OrderedMap κ ν) : map.entries.length = map.keys.toFinset.card := by
  have distinct : map.keys.Nodup := map.keys_increasing.imp fun below => ne_of_lt below
  rw [toFinset_card_of_nodup distinct, keys, length_map]

theorem toFinset_keys_insert (map : OrderedMap κ ν) (key : κ) (value : ν) :
    (map.insert key value).keys.toFinset = Insert.insert key map.keys.toFinset := by
  ext other
  simp only [mem_toFinset, mem_keys, get?_insert, Finset.mem_insert]
  by_cases same : other = key <;> simp [same]

theorem toFinset_keys_erase (map : OrderedMap κ ν) (key : κ) :
    (map.erase key).keys.toFinset = map.keys.toFinset.erase key := by
  ext other
  simp only [mem_toFinset, mem_keys, get?_erase, Finset.mem_erase]
  by_cases same : other = key <;> simp [same]

theorem mem_values {value : ν} : value ∈ map.values ↔ ∃ key, map.get? key = some value := by
  simp only [values, mem_map, Prod.exists, ← mem_entries]
  constructor
  · rintro ⟨key, candidate, member, rfl⟩
    exact ⟨key, member⟩
  · rintro ⟨key, member⟩
    exact ⟨key, value, member, rfl⟩

/-- Placing a key above all others appends its entry. -/
theorem place_above (key : κ) (value : ν) (entries : List (κ × ν))
    (above : ∀ entry ∈ entries, entry.1 < key) :
    place key value entries = entries ++ [(key, value)] := by
  induction entries with
  | nil => rfl
  | cons head rest ih =>
    have headBelow : head.1 < key := above head mem_cons_self
    have restBelow := (forall_mem_cons.mp above).2
    simp only [place, if_neg (not_lt.mpr headBelow.le), if_neg headBelow.ne',
      ih restBelow, cons_append]

theorem entries_insert_above (value : ν) (above : ∀ entry ∈ map.entries, entry.1 < key) :
    (map.insert key value).entries = map.entries ++ [(key, value)] :=
  place_above key value map.entries above

section Folds

variable {ι : Type*} (keyOf : ι → κ)

/-- Changing other keys one after the other leaves a key alone. -/
theorem get?_foldl_modify_of_not (change : ι → ν → ν) {items : List ι} {key : κ}
    (absent : ∀ item ∈ items, keyOf item ≠ key) (map : OrderedMap κ ν) :
    (items.foldl (fun map item => map.modify (keyOf item) (change item)) map).get? key =
      map.get? key := by
  induction items generalizing map with
  | nil => rfl
  | cons item items ih =>
    rw [foldl_cons, ih
      (forall_mem_cons.mp absent).2, get?_modify,
      if_neg (fun same => absent item mem_cons_self same.symm)]

/-- Changing distinct keys one after the other changes each of them once. -/
theorem get?_foldl_modify (change : ι → ν → ν) {items : List ι}
    (distinct : (items.map keyOf).Nodup) {item : ι} (member : item ∈ items)
    (map : OrderedMap κ ν) :
    (items.foldl (fun map item => map.modify (keyOf item) (change item)) map).get? (keyOf item) =
      (map.get? (keyOf item)).map (change item) := by
  induction items generalizing map with
  | nil => exact absurd member not_mem_nil
  | cons head items ih =>
    rw [map_cons, nodup_cons] at distinct
    have others : ∀ later ∈ items, keyOf later ≠ keyOf head := by
      intro later listed same
      exact distinct.1 (same ▸ mem_map_of_mem listed)
    rw [foldl_cons]
    rcases mem_cons.mp member with rfl | later
    · rw [get?_foldl_modify_of_not keyOf change others, get?_modify, if_pos rfl]
    · rw [ih distinct.2 later, get?_modify, if_neg (others item later)]

/-- Storing values one after the other leaves each key with one of its values. -/
theorem get?_foldl_insert (value : ι → ν) (items : List ι) (key : κ) (map : OrderedMap κ ν) :
    (items.foldl (fun map item => map.insert (keyOf item) (value item)) map).get? key =
      ((items.reverse.find? (fun item => decide (keyOf item = key))).map value).or
        (map.get? key) := by
  induction items generalizing map with
  | nil => rfl
  | cons head items ih =>
    rw [foldl_cons, ih, get?_insert, reverse_cons, List.find?_append]
    cases items.reverse.find? (fun item => decide (keyOf item = key)) with
    | some item => rfl
    | none =>
      by_cases same : keyOf head = key
      · simp [same]
      · have other : key ≠ keyOf head := fun equal => same equal.symm
        simp [same, other]

end Folds

theorem get?_ofList (key : κ) :
    (ofList entries).get? key =
      (entries.reverse.find? (fun entry => decide (entry.1 = key))).map Prod.snd := by
  rw [ofList, get?_foldl_insert, get?_empty, Option.or_none]

theorem get?_ofList_eq_none {entries : List (κ × ν)} (absent : ∀ entry ∈ entries, entry.1 ≠ key) :
    (ofList entries).get? key = none := by
  rw [get?_ofList, Option.map_eq_none_iff, List.find?_eq_none]
  intro entry member
  simpa using absent entry (mem_reverse.mp member)

/-- Looking for the last entry of a key finds the entry of the map. -/
theorem find?_entries_reverse (map : OrderedMap κ ν) (key : κ) :
    (map.entries.reverse.find? (fun entry => decide (entry.1 = key))).map Prod.snd =
      map.get? key := by
  cases found : map.entries.reverse.find? (fun entry => decide (entry.1 = key)) with
  | some entry =>
    have member := mem_reverse.mp (mem_of_find?_eq_some found)
    have here : entry.1 = key := by simpa using List.find?_some found
    have stored : (entry.1, entry.2) ∈ map.entries := member
    rw [mem_entries, here] at stored
    rw [stored]
    rfl
  | none =>
    cases stored : map.get? key with
    | none => rfl
    | some value =>
      have member := mem_reverse.mpr (mem_entries.mpr stored)
      exact absurd (List.find?_eq_none.mp found _ member) (by simp)

theorem get?_extend (map other : OrderedMap κ ν) (key : κ) :
    (map.extend other).get? key = (other.get? key).or (map.get? key) := by
  rw [extend, get?_foldl_insert, find?_entries_reverse]

/-- Replace the values of known keys only. -/
def overwrite (map other : OrderedMap κ ν) : OrderedMap κ ν :=
  other.entries.foldl (fun map entry =>
    if map.contains entry.1 then map.insert entry.1 entry.2 else map) map

theorem get?_overwrite (map other : OrderedMap κ ν) (key : κ) :
    (map.overwrite other).get? key =
      if map.contains key then (other.get? key).or (map.get? key) else none := by
  have folded : ∀ (entries : List (κ × ν)) (map : OrderedMap κ ν),
      (entries.foldl (fun map entry => if map.contains entry.1 then map.insert entry.1 entry.2
        else map) map).get? key =
      if map.contains key then
        ((entries.reverse.find? fun entry => decide (entry.1 = key)).map Prod.snd).or (map.get? key)
      else none := by
    intro entries
    induction entries with
    | nil =>
      unfold contains
      cases found : map.get? key <;> simp
    | cons entry entries ih =>
      intro map
      rw [foldl_cons, ih, reverse_cons, List.find?_append]
      by_cases same : entry.1 = key
      · subst same
        unfold contains
        cases found : map.get? entry.1 with
        | none => simp [found]
        | some value =>
          cases entries.reverse.find? (fun later => decide (later.1 = entry.1)) <;> simp
      · have kept : (if map.contains entry.1 then map.insert entry.1 entry.2 else map).get? key =
            map.get? key := by
          split
          · exact get?_insert_of_ne _ _ (Ne.symm same)
          · rfl
        unfold contains at kept ⊢
        rw [kept]
        simp [same]
  rw [overwrite, folded, find?_entries_reverse]

section NaturalKeys

variable {values : Type v} (map : OrderedMap ℕ values)

/-- Entries with keys in the closed interval, in key order. -/
def range (first last : ℕ) : List (ℕ × values) :=
  map.entries.filter (fun entry => decide (first ≤ entry.1 ∧ entry.1 ≤ last))

theorem mem_range {map : OrderedMap ℕ values} {first last key : ℕ} {value : values} :
    (key, value) ∈ map.range first last ↔ map.get? key = some value ∧ first ≤ key ∧ key ≤ last := by
  simp [range, mem_entries]

theorem range_keys_nodup (first last : ℕ) :
    ((map.range first last).map Prod.fst).Nodup := by
  have ordered : (map.range first last).Pairwise (fun left right => left.1 < right.1) :=
    map.increasing.filter _
  rw [List.Nodup, pairwise_map]
  exact ordered.imp (fun below => Nat.ne_of_lt below)

/-- An interval query returns as many entries as the interval has keys exactly
when every key of the interval is present. -/
theorem range_full (first count : ℕ) :
    (map.range (first + 1) (first + count)).length = count ↔
      ∀ key, first < key → key ≤ first + count → map.contains key = true := by
  let keys := ((map.range (first + 1) (first + count)).map Prod.fst).toFinset
  have mem_keys : ∀ key, key ∈ keys ↔
      (∃ value, map.get? key = some value) ∧ first + 1 ≤ key ∧ key ≤ first + count := by
    simp [keys, mem_range]
  have listed : keys ⊆ Finset.Icc (first + 1) (first + count) :=
    fun key member => Finset.mem_Icc.mpr ((mem_keys key).mp member).2
  have size : keys.card = (map.range (first + 1) (first + count)).length := by
    rw [toFinset_card_of_nodup (map.range_keys_nodup _ _), length_map]
  have interval : (Finset.Icc (first + 1) (first + count)).card = count := by
    rw [Nat.card_Icc]
    omega
  constructor
  · intro full key above bound
    have whole := Finset.eq_of_subset_of_card_le listed (by rw [interval, size, full])
    have member : key ∈ keys := whole ▸ Finset.mem_Icc.mpr ⟨above, bound⟩
    exact contains_iff.mpr ((mem_keys key).mp member).1
  · intro present
    have whole : Finset.Icc (first + 1) (first + count) ⊆ keys := by
      intro key member
      obtain ⟨above, bound⟩ := Finset.mem_Icc.mp member
      exact (mem_keys key).mpr ⟨contains_iff.mp (present key above bound), above, bound⟩
    rw [← size, Finset.Subset.antisymm listed whole, interval]

end NaturalKeys

end OrderedMap

end Morrow
