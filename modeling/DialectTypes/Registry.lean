/-!
# Registries

A registry gives each of finitely many names one value. It is kept as the list
of its entries in ascending order of the names, compared by code point, so two
registries that give the same names the same values are equal.
-/

namespace DialectTypes

/-- Entries in strictly ascending order of their names. -/
structure Registry (α : Type) where
  entries : List (String × α)
  ascending : entries.Pairwise fun p q => p.1 < q.1
deriving DecidableEq

namespace Registry

variable {α : Type}

def empty : Registry α := ⟨[], .nil⟩

/-- Put an entry into an ascending list, in place of the entry of that name. -/
def insertEntry (name : String) (value : α) : List (String × α) → List (String × α)
  | [] => [(name, value)]
  | (n, v) :: es =>
    if name < n then (name, value) :: (n, v) :: es
    else if n < name then (n, v) :: insertEntry name value es
    else (name, value) :: es

theorem mem_insertEntry {name : String} {value : α} {es : List (String × α)} {p : String × α}
    (h : p ∈ insertEntry name value es) : p = (name, value) ∨ p ∈ es := by
  induction es with
  | nil => simpa [insertEntry] using h
  | cons e es ih => grind [insertEntry]

theorem insertEntry_ascending (name : String) (value : α) {es : List (String × α)}
    (h : es.Pairwise fun p q => p.1 < q.1) :
    (insertEntry name value es).Pairwise fun p q => p.1 < q.1 := by
  induction es with
  | nil => simp [insertEntry]
  | cons e es ih =>
    have := @mem_insertEntry α name value es
    grind [insertEntry, List.pairwise_cons]

/-- The registry in which `name` has the given value. -/
def insert (r : Registry α) (name : String) (value : α) : Registry α :=
  ⟨insertEntry name value r.entries, insertEntry_ascending name value r.ascending⟩

def get? (r : Registry α) (name : String) : Option α :=
  r.entries.lookup name

/-- The names, in ascending order. -/
def keys (r : Registry α) : List String :=
  r.entries.map Prod.fst

def size (r : Registry α) : Nat :=
  r.entries.length

def contains (r : Registry α) (name : String) : Bool :=
  (r.get? name).isSome

/-- Every entry of both registries; where both have a name, the second counts. -/
def union (r s : Registry α) : Registry α :=
  s.entries.foldl (fun r e => r.insert e.1 e.2) r

@[simp] theorem get?_empty (n : String) : (empty : Registry α).get? n = none := rfl

@[simp] theorem keys_empty : (empty : Registry α).keys = [] := rfl

theorem lookup_insertEntry (name : String) (value : α) {es : List (String × α)}
    (h : es.Pairwise fun p q => p.1 < q.1) (n : String) :
    (insertEntry name value es).lookup n = if n = name then some value else es.lookup n := by
  induction es with
  | nil => grind [insertEntry]
  | cons e es ih => grind [insertEntry, List.pairwise_cons]

theorem get?_insert (r : Registry α) (name : String) (value : α) (n : String) :
    (r.insert name value).get? n = if n = name then some value else r.get? n :=
  lookup_insertEntry name value r.ascending n

@[simp] theorem get?_insert_self (r : Registry α) (name : String) (value : α) :
    (r.insert name value).get? name = some value := by
  simp [get?_insert]

theorem get?_insert_of_ne (r : Registry α) {name n : String} (value : α) (h : n ≠ name) :
    (r.insert name value).get? n = r.get? n := by
  simp [get?_insert, h]

theorem get?_eq_some_iff {r : Registry α} {n : String} {v : α} :
    r.get? n = some v ↔ (n, v) ∈ r.entries := by
  obtain ⟨es, h⟩ := r
  simp only [get?]
  induction es with
  | nil => simp
  | cons e es ih => grind [List.pairwise_cons]

theorem mem_keys_iff {r : Registry α} {n : String} :
    n ∈ r.keys ↔ ∃ value, r.get? n = some value := by
  simp only [get?_eq_some_iff, keys, List.mem_map]
  constructor
  · rintro ⟨⟨m, v⟩, h, rfl⟩
    exact ⟨v, h⟩
  · rintro ⟨v, h⟩
    exact ⟨(n, v), h, rfl⟩

theorem contains_iff {r : Registry α} {n : String} : r.contains n = true ↔ n ∈ r.keys := by
  rw [mem_keys_iff, contains, Option.isSome_iff_exists]

theorem get?_eq_none_iff {r : Registry α} {n : String} : r.get? n = none ↔ n ∉ r.keys := by
  rw [← contains_iff]
  cases h : r.get? n <;> simp [contains, h]

theorem keys_ascending (r : Registry α) : r.keys.Pairwise (· < ·) := by
  simpa [keys, List.pairwise_map] using r.ascending

theorem keys_nodup (r : Registry α) : r.keys.Nodup :=
  r.keys_ascending.imp fun h => by
    rintro rfl
    exact String.lt_irrefl _ h

theorem length_keys (r : Registry α) : r.keys.length = r.size := by
  simp [keys, size]

theorem mem_keys_insert {r : Registry α} {name n : String} {value : α} :
    n ∈ (r.insert name value).keys ↔ n = name ∨ n ∈ r.keys := by
  rw [← contains_iff, ← contains_iff, contains, contains, get?_insert]
  by_cases h : n = name <;> simp [h]

/-- Leaving out one name lowers the count of names that satisfy a condition by one. -/
theorem countP_keys_erase (r : Registry α) {name : String} {p : String → Bool}
    (hk : name ∈ r.keys) (hp : p name = true) :
    (r.keys.countP fun k => k ≠ name && p k) + 1 = r.keys.countP p := by
  have hn := r.keys_nodup
  generalize r.keys = ks at hk hn
  induction ks with
  | nil => simp at hk
  | cons k ks ih =>
    rw [List.nodup_cons] at hn
    by_cases h : k = name
    · subst h
      have : (ks.countP fun j => j ≠ k && p j) = ks.countP p :=
        List.countP_congr fun j hj => by
          have : j ≠ k := fun e => hn.1 (e ▸ hj)
          simp [this]
      simp_all
    · have := ih (by simpa [Ne.symm h] using hk) hn.2
      simp_all [List.countP_cons]
      omega

theorem get?_union (r s : Registry α) (n : String) :
    (r.union s).get? n = (s.get? n).or (r.get? n) := by
  suffices ∀ es : List (String × α), es.Pairwise (fun p q => p.1 < q.1) → ∀ r : Registry α,
      (es.foldl (fun r e => r.insert e.1 e.2) r).get? n = (es.lookup n).or (r.get? n) from
    this s.entries s.ascending r
  intro es h r
  induction es generalizing r with
  | nil => simp
  | cons e es ih =>
    rw [List.pairwise_cons] at h
    rw [List.foldl_cons, ih h.2, get?_insert]
    by_cases hn : n = e.1
    · have : es.lookup n = none := List.lookup_eq_none_iff.2 fun p hp => by
        have := h.1 p hp
        simpa [hn] using fun he => String.lt_irrefl _ (he ▸ this)
      grind
    · grind

theorem mem_keys_union {r s : Registry α} {n : String} :
    n ∈ (r.union s).keys ↔ n ∈ r.keys ∨ n ∈ s.keys := by
  simp only [← contains_iff, contains, get?_union]
  cases s.get? n <;> simp

/-- A registry is what it gives each name. -/
@[ext] theorem ext {r s : Registry α} (h : ∀ n, r.get? n = s.get? n) : r = s := by
  have hm : ∀ p, p ∈ r.entries ↔ p ∈ s.entries := fun p => by
    rw [← get?_eq_some_iff (r := r), ← get?_eq_some_iff (r := s), h]
  obtain ⟨es, hes⟩ := r
  obtain ⟨fs, hfs⟩ := s
  simp only [mk.injEq] at hm ⊢
  clear h
  induction es generalizing fs with
  | nil =>
    cases fs with
    | nil => rfl
    | cons f fs => exact absurd (hm f) (by simp)
  | cons e es ih =>
    cases fs with
    | nil => exact absurd (hm e) (by simp)
    | cons f fs =>
      rw [List.pairwise_cons] at hes hfs
      have hef : e = f := by grind
      subst hef
      congr 1
      exact ih hes.2 fs hfs.2 fun p => by grind

end Registry

/-- A finite set of names, listed in ascending order. -/
abbrev NameSet := Registry Unit

namespace NameSet

def add (s : NameSet) (name : String) : NameSet :=
  s.insert name ()

/-- The names in ascending order. -/
def toList (s : NameSet) : List String :=
  s.keys

theorem contains_add (s : NameSet) (name n : String) :
    (s.add name).contains n = (decide (n = name) || s.contains n) := by
  by_cases h : n = name <;> simp [Registry.contains, add, Registry.get?_insert, h]

@[simp] theorem mem_toList_add {s : NameSet} {name n : String} :
    n ∈ (s.add name).toList ↔ n = name ∨ n ∈ s.toList := by
  simp [toList, ← Registry.contains_iff, contains_add]

/-- A set is what is in it. -/
theorem ext_toList {s t : NameSet} (h : ∀ n, n ∈ s.toList ↔ n ∈ t.toList) : s = t := by
  refine Registry.ext fun n => ?_
  have hn : s.contains n = true ↔ t.contains n = true := by
    rw [Registry.contains_iff, Registry.contains_iff]
    exact h n
  simp only [Registry.contains] at hn
  cases hs : s.get? n <;> cases ht : t.get? n <;> simp_all

end NameSet

end DialectTypes
