/-!
# Entries

Values under keys, in the order in which the keys were first put. Putting a value under a key again
replaces the value and keeps its place.

Main statements: a value that is put is found (`find?_insert_self`), the others are as before
(`find?_insert_of_ne`), and only a new key comes to the end (`keys_insert`).
-/

namespace Stencil

/-- Values under keys, each key once. -/
structure Entries (κ : Type u) (α : Type v) where
  /-- The keys and their values. -/
  toList : List (κ × α)
  /-- Each key is there once. -/
  distinct : (toList.map Prod.fst).Nodup
  deriving DecidableEq

namespace Entries

variable {κ : Type u} {α : Type v}

/-- No entries. -/
def empty : Entries κ α := ⟨[], List.nodup_nil⟩

instance : Inhabited (Entries κ α) := ⟨empty⟩

/-- The keys, in order. -/
def keys (entries : Entries κ α) : List κ :=
  entries.toList.map Prod.fst

/-- The values, in the order of their keys. -/
def values (entries : Entries κ α) : List α :=
  entries.toList.map Prod.snd

/-- Whether there is no entry. -/
def isEmpty (entries : Entries κ α) : Bool :=
  entries.toList.isEmpty

/-- The entries with every value changed. -/
def mapValues (f : κ → α → β) (entries : Entries κ α) : Entries κ β where
  toList := entries.toList.map fun entry => (entry.1, f entry.1 entry.2)
  distinct := by simpa [Function.comp_def] using entries.distinct

theorem eq_of_toList {entries entries' : Entries κ α} (h : entries.toList = entries'.toList) :
    entries = entries' := by
  cases entries
  cases entries'
  cases h
  rfl

variable [DecidableEq κ]

/-- The value of the first pair with the key. -/
def lookup (key : κ) : List (κ × α) → Option α
  | [] => none
  | (k, a) :: rest => if k = key then some a else lookup key rest

/-- The pairs with the value under the key. -/
def put (key : κ) (value : α) : List (κ × α) → List (κ × α)
  | [] => [(key, value)]
  | (k, a) :: rest => if k = key then (key, value) :: rest else (k, a) :: put key value rest

/-- The value under a key. -/
def find? (entries : Entries κ α) (key : κ) : Option α :=
  lookup key entries.toList

/-- Whether there is a value under the key. -/
def contains (entries : Entries κ α) (key : κ) : Bool :=
  (entries.find? key).isSome

theorem map_fst_put (key : κ) (value : α) (pairs : List (κ × α)) :
    (put key value pairs).map Prod.fst =
      if key ∈ pairs.map Prod.fst then pairs.map Prod.fst else pairs.map Prod.fst ++ [key] := by
  induction pairs with
  | nil => simp [put]
  | cons pair rest ih =>
    obtain ⟨k, a⟩ := pair
    by_cases hk : k = key
    · simp [put, hk]
    · have hk' : key ≠ k := fun h => hk h.symm
      by_cases hmem : key ∈ rest.map Prod.fst
      · simp only [hmem, if_true] at ih
        simp only [put, hk, if_false, List.map_cons, ih, List.mem_cons, hmem, or_true, if_true]
      · simp only [hmem, if_false] at ih
        simp only [put, hk, if_false, List.map_cons, ih, List.mem_cons, hk', hmem, or_self,
          List.cons_append]

theorem nodup_map_fst_put (key : κ) (value : α) {pairs : List (κ × α)}
    (h : (pairs.map Prod.fst).Nodup) : ((put key value pairs).map Prod.fst).Nodup := by
  rw [map_fst_put]
  split
  · exact h
  · next hmem =>
    rw [List.nodup_append]
    refine ⟨h, List.nodup_cons.2 ⟨List.not_mem_nil, List.nodup_nil⟩, fun a ha b hb hab => ?_⟩
    rw [List.mem_singleton] at hb
    exact hmem (hb ▸ hab ▸ ha)

/-- The entries with the value under the key. -/
def insert (entries : Entries κ α) (key : κ) (value : α) : Entries κ α :=
  ⟨put key value entries.toList, nodup_map_fst_put key value entries.distinct⟩

/-- The entries without the one of the key. -/
def erase (entries : Entries κ α) (key : κ) : Entries κ α :=
  ⟨entries.toList.filter fun entry => entry.1 ≠ key,
    entries.distinct.sublist (List.filter_sublist.map Prod.fst)⟩

/-- The entries with the pairs put one after the other. -/
def insertAll (entries : Entries κ α) (pairs : List (κ × α)) : Entries κ α :=
  pairs.foldl (fun entries pair => entries.insert pair.1 pair.2) entries

/-- The entries of pairs; of several values under one key the last counts. -/
def ofList (pairs : List (κ × α)) : Entries κ α :=
  empty.insertAll pairs

theorem lookup_put_self (key : κ) (value : α) (pairs : List (κ × α)) :
    lookup key (put key value pairs) = some value := by
  induction pairs with
  | nil => simp [put, lookup]
  | cons pair rest ih =>
    obtain ⟨k, a⟩ := pair
    by_cases hk : k = key <;> simp [put, lookup, hk, ih]

theorem lookup_put_of_ne {key other : κ} (value : α) (pairs : List (κ × α)) (h : other ≠ key) :
    lookup other (put key value pairs) = lookup other pairs := by
  induction pairs with
  | nil => simp [put, lookup, h.symm]
  | cons pair rest ih =>
    obtain ⟨k, a⟩ := pair
    by_cases hk : k = key
    · simp [put, lookup, hk, h.symm]
    · simp [put, lookup, hk, ih]

theorem mem_of_lookup {key : κ} {value : α} {pairs : List (κ × α)}
    (h : lookup key pairs = some value) : (key, value) ∈ pairs := by
  induction pairs with
  | nil => cases h
  | cons pair rest ih =>
    obtain ⟨k, a⟩ := pair
    unfold lookup at h
    split at h
    · next hk =>
      cases h
      exact hk ▸ List.mem_cons_self
    · exact List.mem_cons_of_mem _ (ih h)

theorem mem_values_of_find? {entries : Entries κ α} {key : κ} {value : α}
    (h : entries.find? key = some value) : value ∈ entries.values :=
  List.mem_map_of_mem (f := Prod.snd) (mem_of_lookup h)

@[simp] theorem find?_empty (key : κ) : (empty : Entries κ α).find? key = none := rfl

@[simp] theorem find?_insert_self (entries : Entries κ α) (key : κ) (value : α) :
    (entries.insert key value).find? key = some value :=
  lookup_put_self key value entries.toList

theorem find?_insert_of_ne (entries : Entries κ α) {key other : κ} (value : α)
    (h : other ≠ key) : (entries.insert key value).find? other = entries.find? other :=
  lookup_put_of_ne value entries.toList h

theorem keys_insert (entries : Entries κ α) (key : κ) (value : α) :
    (entries.insert key value).keys =
      if key ∈ entries.keys then entries.keys else entries.keys ++ [key] :=
  map_fst_put key value entries.toList

theorem find?_insertAll_map (entries : Entries κ α) (keys : List κ) (f : κ → α) (key : κ) :
    (entries.insertAll (keys.map fun k => (k, f k))).find? key =
      if key ∈ keys then some (f key) else entries.find? key := by
  induction keys generalizing entries with
  | nil => simp [insertAll]
  | cons first keys ih =>
    have h := ih (entries.insert first (f first))
    simp only [insertAll, List.map_cons, List.foldl_cons] at h ⊢
    rw [h]
    by_cases hkey : key = first
    · subst hkey
      simp
    · simp [hkey, find?_insert_of_ne]

theorem lookup_eq_none_of_not_mem {key : κ} {pairs : List (κ × α)}
    (h : key ∉ pairs.map Prod.fst) : lookup key pairs = none := by
  cases hlookup : lookup key pairs with
  | none => rfl
  | some value => exact absurd (List.mem_map_of_mem (mem_of_lookup hlookup)) h

theorem mem_toList_iff {entries : Entries κ α} {key : κ} {value : α} :
    (key, value) ∈ entries.toList ↔ entries.find? key = some value := by
  refine ⟨fun hmem => ?_, mem_of_lookup⟩
  obtain ⟨pairs, hdistinct⟩ := entries
  change (key, value) ∈ pairs at hmem
  change lookup key pairs = some value
  induction pairs with
  | nil => cases hmem
  | cons pair rest ih =>
    obtain ⟨hfresh, hrest⟩ := List.nodup_cons.1 hdistinct
    rw [lookup]
    rcases List.mem_cons.1 hmem with rfl | hmem
    · exact if_pos rfl
    · split
      · next heq => exact absurd (heq ▸ List.mem_map_of_mem hmem) hfresh
      · exact ih hrest hmem

theorem find?_insertAll (entries : Entries κ α) {pairs : List (κ × α)}
    (h : (pairs.map Prod.fst).Nodup) (key : κ) :
    (entries.insertAll pairs).find? key = (lookup key pairs).or (entries.find? key) := by
  induction pairs generalizing entries with
  | nil => rfl
  | cons pair rest ih =>
    obtain ⟨hfresh, hrest⟩ := List.nodup_cons.1 h
    have hinsert : (entries.insertAll (pair :: rest)).find? key =
        (lookup key rest).or ((entries.insert pair.1 pair.2).find? key) := ih _ hrest
    rw [hinsert, lookup]
    split
    · next heq =>
      subst heq
      rw [lookup_eq_none_of_not_mem hfresh, find?_insert_self, Option.none_or, Option.some_or]
    · next hne => rw [find?_insert_of_ne _ _ (Ne.symm hne)]

theorem put_of_not_mem {key : κ} (value : α) {pairs : List (κ × α)}
    (h : key ∉ pairs.map Prod.fst) : put key value pairs = pairs ++ [(key, value)] := by
  induction pairs with
  | nil => rfl
  | cons pair rest ih =>
    rw [List.map_cons, List.mem_cons, not_or] at h
    rw [put, if_neg (Ne.symm h.1), ih h.2, List.cons_append]

theorem insert_insert (entries : Entries κ α) (key : κ) (value value' : α) :
    (entries.insert key value).insert key value' = entries.insert key value' := by
  apply eq_of_toList
  change put key value' (put key value entries.toList) = put key value' entries.toList
  induction entries.toList with
  | nil => simp [put]
  | cons pair rest ih => by_cases hkey : pair.1 = key <;> simp [put, hkey, ih]

theorem erase_insert (entries : Entries κ α) (key : κ) (value : α) :
    (entries.insert key value).erase key = entries.erase key := by
  apply eq_of_toList
  change (put key value entries.toList).filter _ = entries.toList.filter _
  induction entries.toList with
  | nil => simp [put]
  | cons pair rest ih => by_cases hkey : pair.1 = key <;> simp_all [put]

theorem erase_of_find?_eq_none {entries : Entries κ α} {key : κ} (h : entries.find? key = none) :
    entries.erase key = entries := by
  apply eq_of_toList
  change entries.toList.filter _ = entries.toList
  rw [List.filter_eq_self]
  intro entry hentry
  apply decide_eq_true
  rintro rfl
  rw [mem_toList_iff.1 hentry] at h
  cases h

theorem put_ne_nil (key : κ) (value : α) (pairs : List (κ × α)) : put key value pairs ≠ [] := by
  cases pairs with
  | nil => exact List.cons_ne_nil _ _
  | cons pair rest =>
    rw [put]
    split <;> exact List.cons_ne_nil _ _

theorem toList_insertAll {entries : Entries κ α} {pairs : List (κ × α)}
    (h : (entries.keys ++ pairs.map Prod.fst).Nodup) :
    (entries.insertAll pairs).toList = entries.toList ++ pairs := by
  induction pairs generalizing entries with
  | nil => exact (List.append_nil _).symm
  | cons pair rest ih =>
    have hfresh : pair.1 ∉ entries.keys := by
      intro hmem
      exact (List.nodup_append.1 h).2.2 _ hmem _ List.mem_cons_self rfl
    have hput : (entries.insert pair.1 pair.2).toList = entries.toList ++ [pair] :=
      put_of_not_mem pair.2 hfresh
    have hkeys : (entries.insert pair.1 pair.2).keys = entries.keys ++ [pair.1] := by
      rw [keys_insert, if_neg hfresh]
    have hrest : ((entries.insert pair.1 pair.2).keys ++ rest.map Prod.fst).Nodup := by
      rw [hkeys, List.append_assoc]
      exact h
    calc (entries.insertAll (pair :: rest)).toList
        = (entries.insert pair.1 pair.2).toList ++ rest := ih hrest
      _ = entries.toList ++ pair :: rest := by
        rw [hput, List.append_assoc, List.singleton_append]

theorem ofList_toList (entries : Entries κ α) : ofList entries.toList = entries :=
  eq_of_toList (toList_insertAll entries.distinct)

theorem isEmpty_insertAll (entries : Entries κ α) (pairs : List (κ × α)) :
    (entries.insertAll pairs).isEmpty = (entries.isEmpty && pairs.isEmpty) := by
  induction pairs generalizing entries with
  | nil => exact (Bool.and_true _).symm
  | cons pair rest ih =>
    have hinsert : (entries.insert pair.1 pair.2).isEmpty = false :=
      List.isEmpty_eq_false_iff.2 (put_ne_nil pair.1 pair.2 entries.toList)
    rw [List.isEmpty_cons, Bool.and_false]
    exact (ih _).trans (by rw [hinsert, Bool.false_and])

end Entries

end Stencil
