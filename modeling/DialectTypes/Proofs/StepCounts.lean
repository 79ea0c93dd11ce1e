import DialectTypes.Adapter.Lookup
import DialectTypes.Proofs.AliasChains
import DialectTypes.Proofs.Reachability
import Mathlib.Data.Finset.Card

/-!
# How many steps the loops take

Three loops run along the definitions of an adapter: the search for what an
expression needs, the check of a chain of aliases, and resolving. Definitions may
refer to themselves, to one another and in a circle, and still each of the loops
stops. The search reads one expression for each definition that it records and one
more, so the dependencies themselves count its steps. The other two take at most
one step for each definition, and the check one more, where it finds a repetition.

A loop is given by its step. The check and resolving are defined by recursion, so
their steps are defined here, and what such a loop stops with is shown to be the
value of the function.
-/

namespace DialectTypes

section Loops

variable {σ : Type}

/-- A number of steps leads from the first state to the second. -/
inductive Steps (step? : σ → Option σ) : Nat → σ → σ → Prop where
  | here (s : σ) : Steps step? 0 s s
  | next {k : Nat} {s t u : σ} (h : step? s = some t) (hu : Steps step? k t u) :
      Steps step? (k + 1) s u

/-- The loop takes this number of steps from the first state and stops in the second. -/
structure StopsAfter (step? : σ → Option σ) (k : Nat) (s t : σ) : Prop where
  steps : Steps step? k s t
  stopped : step? t = none

variable {step? : σ → Option σ} {s t u : σ} {j k : Nat}

/-- What every step keeps is kept by a number of steps. -/
theorem Steps.preserves {P : σ → Prop} (hstep : ∀ s t, step? s = some t → P s → P t)
    (h : Steps step? k s t) (hs : P s) : P t := by
  induction h with
  | here s => exact hs
  | next h _ ih => exact ih (hstep _ _ h hs)

/-- A measure that every step lowers by one counts the steps. -/
theorem Steps.add_measure {m : σ → Nat} (hm : ∀ s t, step? s = some t → m t + 1 = m s)
    (h : Steps step? k s t) : k + m t = m s := by
  induction h with
  | here s => exact Nat.zero_add _
  | next h _ ih =>
      have hstep := hm _ _ h
      omega

/-- A loop with a measure that every step lowers stops, after at most as many steps. -/
theorem exists_stopsAfter {m : σ → Nat} (hm : ∀ s t, step? s = some t → m t < m s) (s : σ) :
    ∃ k t, k ≤ m s ∧ StopsAfter step? k s t := by
  generalize hn : m s = n
  induction n using Nat.strong_induction_on generalizing s with
  | _ n ih =>
      cases hs : step? s with
      | none => exact ⟨0, s, Nat.zero_le _, .here s, hs⟩
      | some u =>
          have hlt : m u < n := hn ▸ hm s u hs
          obtain ⟨k, t, hk, hstop⟩ := ih (m u) hlt u rfl
          exact ⟨k + 1, t, by omega, .next hs hstop.steps, hstop.stopped⟩

/-- A loop stops at one time and in one state only. -/
theorem StopsAfter.iff (h : StopsAfter step? k s t) :
    StopsAfter step? j s u ↔ j = k ∧ u = t := by
  constructor
  · intro hu
    obtain ⟨hsteps, hstopped⟩ := h
    induction hsteps generalizing j with
    | here s =>
        cases hu.steps with
        | here => exact ⟨rfl, rfl⟩
        | next hs _ =>
            rw [hstopped] at hs
            cases hs
    | @next k s v t hs _ ih =>
        cases hu.steps with
        | here =>
            rw [hu.stopped] at hs
            cases hs
        | next hs' hsteps =>
            obtain rfl := Option.some.inj (hs.symm.trans hs')
            obtain ⟨rfl, rfl⟩ := ih ⟨hsteps, hu.stopped⟩ hstopped
            exact ⟨rfl, rfl⟩
  · rintro ⟨rfl, rfl⟩
    exact h

end Loops

/-- Where one registry has only names of another, it has as many as the other shares with it. -/
theorem Registry.countP_contains {α β : Type} {r : Registry α} {s : Registry β}
    (h : ∀ n ∈ s.keys, n ∈ r.keys) : r.keys.countP s.contains = s.size := by
  have hperm : (r.keys.filter s.contains).Perm s.keys := by
    apply (List.perm_ext_iff_of_nodup (r.keys_nodup.filter _) s.keys_nodup).mpr
    intro n
    rw [List.mem_filter, Registry.contains_iff]
    exact and_iff_right_of_imp (h n)
  calc
    r.keys.countP s.contains = (r.keys.filter s.contains).length := List.countP_eq_length_filter
    _ = s.keys.length := hperm.length_eq
    _ = s.size := s.length_keys

namespace Adapter

section Searching

variable {a : Adapter} {e : TypeExpr} {s t : Search} {k : Nat}

/-- Every definition is recorded or is not. -/
theorem Search.size_add_unread (h : s.found.Placed a) :
    s.found.definitions.size + s.unread a = a.definitions.size := by
  calc
    s.found.definitions.size + s.unread a
      = a.definitions.keys.countP s.found.definitions.contains + s.unread a := by
        rw [Registry.countP_contains h.definitions]
    _ = a.definitions.keys.length := by
        simpa [Search.unread] using (List.length_eq_countP_add_countP _).symm
    _ = a.definitions.size := a.definitions.length_keys

theorem Search.run_eq_of_steps (h : Steps (Search.step? a) k s t) :
    Search.run a s = Search.run a t := by
  induction h with
  | here s => rfl
  | next h _ ih => exact (Search.run_of_step?_eq_some h).trans ih

/-- The search stops with nothing pending, once it has read the expression itself and
every definition that it recorded. -/
theorem stopsAfter_dependencies (a : Adapter) (e : TypeExpr) :
    StopsAfter (Search.step? a) ((a.dependencies e).definitions.size + 1) (Search.start e)
      ⟨[], a.dependencies e⟩ := by
  have hlower : ∀ s t : Search, s.step? a = some t → t.remaining a + 1 = s.remaining a :=
    fun _ _ => Search.remaining_step?
  obtain ⟨k, t, _, hsteps, hstopped⟩ :=
    exists_stopsAfter (fun s t h => Nat.lt_of_succ_le (hlower s t h).le) (Search.start e)
  have hpending : t.pending = [] := Search.step?_eq_none_iff.mp hstopped
  have hfound : a.dependencies e = t.found :=
    (Search.run_eq_of_steps hsteps).trans (Search.run_of_step?_eq_none hstopped)
  have hplaced : t.found.Placed a := hfound ▸ (a.dependencies_placed_and_lists e).1
  have hcount := hsteps.add_measure hlower
  have hstart := Search.size_add_unread (s := Search.start e) (Dependencies.placed_empty a)
  have hend := Search.size_add_unread hplaced
  have hk : k = (a.dependencies e).definitions.size + 1 := by
    rw [Search.remaining, Search.remaining, hpending] at hcount
    simp only [Search.start, List.length_nil, List.length_singleton] at hcount hstart
    rw [hfound]
    have hnone : Dependencies.empty.definitions.size = 0 := rfl
    omega
  have ht : t = ⟨[], a.dependencies e⟩ := by
    cases t
    simp_all
  rw [← hk, ← ht]
  exact ⟨hsteps, hstopped⟩

theorem size_definitions_dependencies_le (a : Adapter) (e : TypeExpr) :
    (a.dependencies e).definitions.size ≤ a.definitions.size := by
  have h := Search.size_add_unread (s := ⟨[], a.dependencies e⟩)
    (a.dependencies_placed_and_lists e).1
  exact h ▸ Nat.le_add_right _ _

end Searching

section Walking

/-- The check of a chain of aliases on its way: the names passed and the name at hand,
or the end where the name at hand had been passed before. -/
inductive AliasWalk where
  | going (passed : List String) (name : String)
  | repeated

namespace AliasWalk

/-- Go on to the name of which the name at hand is an alias. -/
def step? (a : Adapter) : AliasWalk → Option AliasWalk
  | .going passed name => (a.aliasOf? name).map fun next =>
      if name ∈ passed then .repeated else .going (name :: passed) next
  | .repeated => none

/-- A bound on the steps that are still going to be taken. -/
def remaining (a : Adapter) : AliasWalk → Nat
  | .going passed _ => a.unseen passed + 1
  | .repeated => 0

/-- Whether the walk comes to a name that it has passed. -/
def repeats (a : Adapter) : AliasWalk → Bool
  | .going passed name => a.repeatsFrom passed name
  | .repeated => true

variable {a : Adapter} {w v : AliasWalk}

/-- A step ends the walk at a repetition or passes the name at hand. -/
theorem step?_cases (h : w.step? a = some v) :
    ∃ passed name next, w = .going passed name ∧ a.aliasOf? name = some next ∧
      (name ∈ passed ∧ v = .repeated ∨ name ∉ passed ∧ v = .going (name :: passed) next) := by
  cases w with
  | repeated => cases h
  | going passed name =>
      obtain ⟨next, hnext, hv⟩ := Option.map_eq_some_iff.mp h
      refine ⟨passed, name, next, rfl, hnext, ?_⟩
      by_cases hn : name ∈ passed
      · exact Or.inl ⟨hn, by rw [← hv, if_pos hn]⟩
      · exact Or.inr ⟨hn, by rw [← hv, if_neg hn]⟩

theorem remaining_step?_lt (h : w.step? a = some v) : v.remaining a < w.remaining a := by
  obtain ⟨passed, name, next, rfl, hnext, ⟨_, rfl⟩ | ⟨hn, rfl⟩⟩ := step?_cases h
  · exact Nat.succ_pos _
  · exact Nat.succ_lt_succ (unseen_cons_lt hnext hn)

theorem repeats_step? (h : w.step? a = some v) : v.repeats a = w.repeats a := by
  obtain ⟨passed, name, next, rfl, hnext, ⟨hn, rfl⟩ | ⟨hn, rfl⟩⟩ := step?_cases h
  · simp [repeats, repeatsFrom_of_eq_some hnext, hn]
  · simp [repeats, repeatsFrom_of_eq_some hnext, hn]

theorem eq_repeated_iff_of_stopped (h : w.step? a = none) :
    w = .repeated ↔ w.repeats a = true := by
  cases w with
  | repeated => exact iff_of_true rfl rfl
  | going passed name =>
      have hnone : a.aliasOf? name = none := Option.map_eq_none_iff.mp h
      simp [repeats, repeatsFrom_of_eq_none hnone]

end AliasWalk

/-- The check stops, at a repetition exactly if it reports one. -/
theorem exists_stopsAfter_aliasWalk (a : Adapter) (name : String) :
    ∃ k w, k ≤ a.definitions.size + 1 ∧ StopsAfter (AliasWalk.step? a) k (.going [] name) w ∧
      (w = .repeated ↔ a.repeatsFrom [] name = true) := by
  have hlower : ∀ w v : AliasWalk, w.step? a = some v → v.remaining a < w.remaining a :=
    fun _ _ => AliasWalk.remaining_step?_lt
  obtain ⟨k, w, hk, hstop⟩ := exists_stopsAfter hlower (.going [] name)
  have hrepeats : w.repeats a = a.repeatsFrom [] name :=
    hstop.steps.preserves (P := fun v => v.repeats a = a.repeatsFrom [] name)
      (fun _ _ h hv => (AliasWalk.repeats_step? h).trans hv) rfl
  have hunseen : a.unseen [] ≤ a.definitions.size := by
    calc
      a.unseen [] ≤ a.definitions.keys.length := List.countP_le_length
      _ = a.definitions.size := a.definitions.length_keys
  refine ⟨k, w, hk.trans (Nat.succ_le_succ hunseen), hstop, ?_⟩
  rw [AliasWalk.eq_repeated_iff_of_stopped hstop.stopped, hrepeats]

end Walking

section Resolving

/-- Resolving on its way: the number of hops made, and the expression come to. -/
structure Resolving where
  hops : Nat
  current : TypeExpr

namespace Resolving

/-- Hop to the definition of which the expression at hand is an alias, unless as many
hops as there are definitions are made. -/
def step? (a : Adapter) (r : Resolving) : Option Resolving :=
  if r.hops < a.definitions.size then
    (a.target? r.current).map fun next => ⟨r.hops + 1, next⟩
  else none

/-- What resolving comes to in the end. -/
def result (a : Adapter) (r : Resolving) : TypeExpr :=
  a.follow (a.definitions.size - r.hops) r.current

variable {a : Adapter} {r s : Resolving} {k : Nat}

theorem step?_cases (h : r.step? a = some s) :
    r.hops < a.definitions.size ∧ a.target? r.current = some s.current ∧
      s.hops = r.hops + 1 := by
  unfold step? at h
  split at h
  · next hlt =>
      obtain ⟨next, hnext, rfl⟩ := Option.map_eq_some_iff.mp h
      exact ⟨hlt, hnext, rfl⟩
  · cases h

theorem hops_of_steps (h : Steps (step? a) k r s) : s.hops = r.hops + k := by
  induction h with
  | here r => rfl
  | next h _ ih =>
      rw [ih, (step?_cases h).2.2]
      omega

theorem result_step? (h : r.step? a = some s) : s.result a = r.result a := by
  obtain ⟨hlt, hnext, hhops⟩ := step?_cases h
  have hleft : a.definitions.size - r.hops = a.definitions.size - s.hops + 1 := by omega
  rw [result, result, hleft, follow_succ, hnext]
  rfl

theorem result_of_stopped (h : r.step? a = none) : r.result a = r.current := by
  rw [result]
  cases hleft : a.definitions.size - r.hops with
  | zero => rfl
  | succ left =>
      rw [step?, if_pos (by omega), Option.map_eq_none_iff] at h
      rw [follow_succ, h]
      rfl

end Resolving

/-- Resolving stops with its result, after at most as many hops as there are definitions. -/
theorem exists_stopsAfter_resolving (a : Adapter) (e : TypeExpr) :
    ∃ k ≤ a.definitions.size, StopsAfter (Resolving.step? a) k ⟨0, e⟩ ⟨k, a.resolve e⟩ := by
  have hlower : ∀ r s : Resolving, r.step? a = some s →
      a.definitions.size - s.hops < a.definitions.size - r.hops := by
    intro r s h
    obtain ⟨hlt, _, hhops⟩ := Resolving.step?_cases h
    omega
  obtain ⟨k, r, hk, hstop⟩ := exists_stopsAfter hlower ⟨0, e⟩
  have hhops : r.hops = 0 + k := Resolving.hops_of_steps hstop.steps
  have hresult : r.result a = a.resolve e :=
    hstop.steps.preserves (P := fun s => s.result a = a.resolve e)
      (fun _ _ h hs => (Resolving.result_step? h).trans hs) rfl
  have hr : r = ⟨k, a.resolve e⟩ := by
    rw [← hresult, Resolving.result_of_stopped hstop.stopped, ← Nat.zero_add k, ← hhops]
  exact ⟨k, hk, hr ▸ hstop⟩

end Resolving

/-- On every adapter the loops along its definitions stop. The search takes one step
more than there are definitions among the dependencies that it finds, the check of a
chain of aliases at most one more than there are definitions, and resolving at most as
many hops as there are definitions. -/
theorem loops_stop (a : Adapter) (e : TypeExpr) (name : String) :
    (∀ k s, StopsAfter (Search.step? a) k (Search.start e) s ↔
      k = (a.dependencies e).definitions.size + 1 ∧ s = ⟨[], a.dependencies e⟩) ∧
    (a.dependencies e).definitions.size ≤ a.definitions.size ∧
    (∃ k w, k ≤ a.definitions.size + 1 ∧ StopsAfter (AliasWalk.step? a) k (.going [] name) w ∧
      (w = .repeated ↔ a.repeatsFrom [] name = true)) ∧
    ∃ k ≤ a.definitions.size, StopsAfter (Resolving.step? a) k ⟨0, e⟩ ⟨k, a.resolve e⟩ := by
  refine ⟨?_, ?_, ?_, ?_⟩
  · intro k s
    exact (a.stopsAfter_dependencies e).iff
  · exact a.size_definitions_dependencies_le e
  · exact a.exists_stopsAfter_aliasWalk name
  · exact a.exists_stopsAfter_resolving e

end Adapter

end DialectTypes
