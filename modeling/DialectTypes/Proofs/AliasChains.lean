import DialectTypes.Adapter.Validation

/-!
# Chains of aliases

A definition that is nothing but a name is an alias of that name. Following
aliases from a name gives a chain, which ends where a name is no definition or
its definition is something else than a name. The check for cycles walks a chain
and remembers the names it passed. It reports a repetition exactly if the chain
has no end, whether the chain comes back to its start or runs into a cycle later.
-/

namespace DialectTypes

namespace Adapter

variable (a : Adapter)

/-- The name that a number of aliases leads to, if there are that many. -/
def aliasAfter : Nat → String → Option String
  | 0, n => some n
  | k + 1, n => (a.aliasOf? n).bind (aliasAfter k)

theorem aliasAfter_succ (k : Nat) (n : String) :
    a.aliasAfter (k + 1) n = (a.aliasOf? n).bind (a.aliasAfter k) := rfl

/-- The chain of aliases from the name goes on after any number of them. -/
def Endless (n : String) : Prop :=
  ∀ k, (a.aliasAfter k n).isSome = true

variable {a}

theorem aliasOf?_eq_some_iff {n target : String} :
    a.aliasOf? n = some target ↔ a.definitions.get? n = some (.identifier target) := by
  rw [aliasOf?, Option.bind_eq_some_iff]
  constructor
  · rintro ⟨body, hd, hn⟩
    rw [hd, TypeExpr.name?_eq_some_iff.mp hn]
  · intro hd
    exact ⟨_, hd, rfl⟩

theorem not_endless_of_aliasOf?_eq_none {n : String} (h : a.aliasOf? n = none) :
    ¬ a.Endless n := by
  intro hn
  have := hn 1
  simp [aliasAfter_succ, h] at this

theorem endless_iff_of_aliasOf?_eq_some {n target : String} (h : a.aliasOf? n = some target) :
    a.Endless n ↔ a.Endless target := by
  constructor
  · intro hn k
    have := hn (k + 1)
    rwa [aliasAfter_succ, h] at this
  · intro ht k
    cases k with
    | zero => rfl
    | succ k =>
        rw [aliasAfter_succ, h]
        exact ht k

/-- A set of names in which each has an alias in the set has only endless chains. -/
theorem endless_of_closed {P : String → Prop}
    (hclosed : ∀ n, P n → ∃ target, a.aliasOf? n = some target ∧ P target) {n : String}
    (hn : P n) : a.Endless n := by
  intro k
  induction k generalizing n with
  | zero => rfl
  | succ k ih =>
      obtain ⟨target, ht, hp⟩ := hclosed n hn
      rw [aliasAfter_succ, ht]
      exact ih hp

theorem Endless.mem_keys {n : String} (h : a.Endless n) : n ∈ a.definitions.keys := by
  apply Registry.mem_keys_iff.mpr
  cases ht : a.aliasOf? n with
  | none => exact absurd h (not_endless_of_aliasOf?_eq_none ht)
  | some target => exact ⟨_, aliasOf?_eq_some_iff.mp ht⟩

/-- On an endless chain every name is defined as a bare name. -/
theorem Endless.exists_identifier {n m : String} {k : Nat} (h : a.Endless n)
    (hk : a.aliasAfter k n = some m) :
    ∃ target, a.definitions.get? m = some (.identifier target) := by
  induction k generalizing n with
  | zero =>
      obtain rfl := Option.some.inj hk
      cases ht : a.aliasOf? n with
      | none => exact absurd h (not_endless_of_aliasOf?_eq_none ht)
      | some target => exact ⟨target, aliasOf?_eq_some_iff.mp ht⟩
  | succ k ih =>
      rw [aliasAfter_succ] at hk
      obtain ⟨target, ht, hk⟩ := Option.bind_eq_some_iff.mp hk
      exact ih ((endless_iff_of_aliasOf?_eq_some ht).mp h) hk

theorem repeatsFrom_of_eq_none {seen : List String} {n : String} (h : a.aliasOf? n = none) :
    a.repeatsFrom seen n = false := by
  rw [repeatsFrom]
  split
  · rfl
  · next h' => rw [h] at h'; cases h'

theorem repeatsFrom_of_eq_some {seen : List String} {n next : String}
    (h : a.aliasOf? n = some next) :
    a.repeatsFrom seen n = (decide (n ∈ seen) || a.repeatsFrom (n :: seen) next) := by
  rw [repeatsFrom]
  split
  · next h' => rw [h] at h'; cases h'
  · next next' h' =>
      rw [h] at h'
      obtain rfl := Option.some.inj h'
      by_cases hn : n ∈ seen <;> simp [hn]

/-- A walk repeats a name exactly if the chain is endless, where each name passed
before leads to another such name or to the one at hand. -/
theorem repeatsFrom_eq_true_iff_of_passed {seen : List String} {n : String}
    (hseen : ∀ m ∈ seen, ∃ target, a.aliasOf? m = some target ∧ (target ∈ seen ∨ target = n)) :
    a.repeatsFrom seen n = true ↔ a.Endless n := by
  induction seen, n using repeatsFrom.induct a with
  | case1 seen n h =>
      simpa [repeatsFrom_of_eq_none h] using not_endless_of_aliasOf?_eq_none h
  | case2 seen n next h hn =>
      -- The names passed are closed under aliases, as the one at hand is among them.
      have hclosed : ∀ m, m ∈ seen → ∃ target, a.aliasOf? m = some target ∧ target ∈ seen := by
        intro m hm
        obtain ⟨target, ht, hs | rfl⟩ := hseen m hm
        · exact ⟨target, ht, hs⟩
        · exact ⟨target, ht, hn⟩
      simpa [repeatsFrom_of_eq_some h, hn] using endless_of_closed hclosed hn
  | case3 seen n next h hn ih =>
      have hpassed : ∀ m ∈ n :: seen,
          ∃ target, a.aliasOf? m = some target ∧ (target ∈ n :: seen ∨ target = next) := by
        intro m hm
        rcases List.mem_cons.mp hm with rfl | hm
        · exact ⟨next, h, Or.inr rfl⟩
        · obtain ⟨target, ht, hs⟩ := hseen m hm
          refine ⟨target, ht, Or.inl ?_⟩
          rcases hs with hs | rfl
          · exact List.mem_cons_of_mem _ hs
          · exact List.mem_cons_self
      simpa [repeatsFrom_of_eq_some h, hn, endless_iff_of_aliasOf?_eq_some h] using ih hpassed

/-- The check from a name finds a cycle exactly if the chain from it has no end. -/
theorem repeatsFrom_nil_iff {n : String} : a.repeatsFrom [] n = true ↔ a.Endless n := by
  apply repeatsFrom_eq_true_iff_of_passed
  intro m hm
  exact absurd hm List.not_mem_nil

end Adapter

end DialectTypes
