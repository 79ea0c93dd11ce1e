import DialectTypes.Adapter.Lookup
import DialectTypes.Proofs.AliasChains
import Mathlib.Data.Finset.Card

/-!
# Where a chain of aliases leads

From an expression the chain goes on to the definition of its name, as long as
the expression is a name that has a definition. Resolving an expression gives
the last expression of its chain, however many definitions the chain passes. A
chain without an end is left on its cycle, so the result of resolving is an
alias exactly if the check for cycles finds a repetition.

A chain with more hops than there are definitions passes a name twice. This one
fact bounds the chains that end and puts those that do not onto their cycle.
-/

namespace DialectTypes

namespace Adapter

/-- A number of hops along the chain leads from the first expression to the second. -/
inductive Hops (a : Adapter) : Nat → TypeExpr → TypeExpr → Prop where
  | here (e : TypeExpr) : Hops a 0 e e
  | next {k : Nat} {n : String} {body last : TypeExpr} (hd : a.definitions.get? n = some body)
      (h : Hops a k body last) : Hops a (k + 1) (.identifier n) last

/-- The expression is a name that has a definition, so the chain goes on from it. -/
def IsAlias (a : Adapter) (e : TypeExpr) : Prop :=
  ∃ n ∈ a.definitions.keys, e = .identifier n

/-- The chain from the first expression ends with the second. -/
def ChainEnds (a : Adapter) (e last : TypeExpr) : Prop :=
  (∃ k, a.Hops k e last) ∧ ¬ a.IsAlias last

/-- The chain goes on after any number of hops. -/
def ChainEndless (a : Adapter) (e : TypeExpr) : Prop :=
  ∀ k, ∃ f, a.Hops k e f

/-- The chain comes back to the name after one or more hops. -/
def OnCycle (a : Adapter) (n : String) : Prop :=
  ∃ k, 0 < k ∧ a.Hops k (.identifier n) (.identifier n)

variable {a : Adapter} {e f g : TypeExpr} {j k : Nat}

theorem isAlias_iff_target? : a.IsAlias e ↔ ∃ body, a.target? e = some body := by
  constructor
  · rintro ⟨n, hn, rfl⟩
    exact Registry.mem_keys_iff.mp hn
  · rintro ⟨body, hbody⟩
    obtain ⟨n, hn, hd⟩ := Option.bind_eq_some_iff.mp hbody
    exact ⟨n, Registry.mem_keys_iff.mpr ⟨body, hd⟩, TypeExpr.name?_eq_some_iff.mp hn⟩

theorem target?_eq_none_of_not_isAlias (h : ¬ a.IsAlias e) : a.target? e = none := by
  rw [isAlias_iff_target?] at h
  cases ht : a.target? e with
  | none => rfl
  | some body => exact absurd ⟨body, ht⟩ h

namespace Hops

theorem unique (hf : a.Hops k e f) (hg : a.Hops k e g) : f = g := by
  induction hf with
  | here e => cases hg; rfl
  | next hd _ ih =>
      cases hg with
      | next hd' hg =>
          obtain rfl := Option.some.inj (hd.symm.trans hd')
          exact ih hg

theorem trans (hf : a.Hops j e f) (hg : a.Hops k f g) : a.Hops (j + k) e g := by
  induction hf with
  | here e => simpa using hg
  | next hd _ ih =>
      rw [Nat.add_right_comm]
      exact next hd (ih hg)

/-- A chain passes an expression after any lesser number of hops. -/
theorem split (h : a.Hops (j + k) e g) : ∃ f, a.Hops j e f ∧ a.Hops k f g := by
  induction j generalizing e with
  | zero => exact ⟨e, here e, by simpa using h⟩
  | succ j ih =>
      rw [Nat.add_right_comm] at h
      cases h with
      | next hd h =>
          obtain ⟨f, hf, hg⟩ := ih h
          exact ⟨f, next hd hf, hg⟩

theorem isAlias (h : a.Hops (k + 1) e f) : a.IsAlias e := by
  cases h with
  | next hd _ => exact ⟨_, Registry.mem_keys_iff.mpr ⟨_, hd⟩, rfl⟩

/-- No chain from an expression is longer than one that ends. -/
theorem le_of_not_isAlias (hf : a.Hops k e f) (hlast : ¬ a.IsAlias f) (hg : a.Hops j e g) :
    j ≤ k := by
  by_contra hlt
  obtain ⟨m, rfl⟩ : ∃ m, j = k + (m + 1) := ⟨j - k - 1, by omega⟩
  obtain ⟨f', hf', hrest⟩ := hg.split
  obtain rfl := hf.unique hf'
  exact hlast hrest.isAlias

/-- Every expression that a chain passes on the way is an alias. -/
theorem passes (h : a.Hops k e g) (hjk : j < k) :
    ∃ n ∈ a.definitions.keys, a.Hops j e (.identifier n) := by
  obtain ⟨m, rfl⟩ : ∃ m, k = j + (m + 1) := ⟨k - j - 1, by omega⟩
  obtain ⟨f, hf, hrest⟩ := h.split
  obtain ⟨n, hn, rfl⟩ := hrest.isAlias
  exact ⟨n, hn, hf⟩

/-- A chain with more hops than there are definitions passes a name twice. -/
theorem exists_repeat (h : a.Hops k e g) (hk : a.definitions.size < k) :
    ∃ i j n, i < j ∧ j ≤ a.definitions.size ∧ a.Hops i e (.identifier n) ∧
      a.Hops j e (.identifier n) := by
  have hpass : ∀ i, ∃ n, i < k → n ∈ a.definitions.keys ∧ a.Hops i e (.identifier n) := by
    intro i
    by_cases hi : i < k
    · obtain ⟨n, hn, hh⟩ := h.passes hi
      exact ⟨n, fun _ => ⟨hn, hh⟩⟩
    · exact ⟨"", fun hi' => absurd hi' hi⟩
  choose name hname using hpass
  have hcard : a.definitions.keys.toFinset.card < (Finset.range (a.definitions.size + 1)).card := by
    calc
      a.definitions.keys.toFinset.card ≤ a.definitions.keys.length := List.toFinset_card_le _
      _ = a.definitions.size := a.definitions.length_keys
      _ < (Finset.range (a.definitions.size + 1)).card := by simp
  have hmaps : ∀ i ∈ Finset.range (a.definitions.size + 1),
      name i ∈ a.definitions.keys.toFinset := by
    intro i hi
    rw [Finset.mem_range] at hi
    exact List.mem_toFinset.mpr (hname i (by omega)).1
  obtain ⟨i, hi, j, hj, hne, heq⟩ := Finset.exists_ne_map_eq_of_card_lt_of_maps_to hcard hmaps
  rw [Finset.mem_range] at hi hj
  have hhi := (hname i (by omega)).2
  have hhj := (hname j (by omega)).2
  rcases Nat.lt_or_gt_of_ne hne with hij | hij
  · exact ⟨i, j, name i, hij, by omega, hhi, heq ▸ hhj⟩
  · exact ⟨j, i, name j, hij, by omega, hhj, heq ▸ hhi⟩

/-- A chain that ends has at most as many hops as there are definitions. -/
theorem le_size (h : a.Hops k e f) (hlast : ¬ a.IsAlias f) : k ≤ a.definitions.size := by
  by_contra hlt
  obtain ⟨i, j, n, hij, hj, hi, hj'⟩ := h.exists_repeat (by omega)
  -- From the repeated name the same last expression is both nearer and farther away.
  have hrest : ∀ m, m ≤ k → a.Hops m e (.identifier n) → a.Hops (k - m) (.identifier n) f := by
    intro m hm hmn
    have hsplit : a.Hops (m + (k - m)) e f := by rwa [Nat.add_sub_cancel' hm]
    obtain ⟨f', hf', hlater⟩ := hsplit.split
    obtain rfl := hmn.unique hf'
    exact hlater
  have := (hrest j (by omega) hj').le_of_not_isAlias hlast (hrest i (by omega) hi)
  omega

end Hops

theorem follow_of_not_isAlias (h : ¬ a.IsAlias e) (hops : Nat) : a.follow hops e = e := by
  cases hops with
  | zero => rfl
  | succ hops => rw [follow_succ, target?_eq_none_of_not_isAlias h]; rfl

theorem follow_add_of_hops (h : a.Hops k e f) (hops : Nat) :
    a.follow (k + hops) e = a.follow hops f := by
  induction h with
  | here e => rw [Nat.zero_add]
  | next hd _ ih =>
      rw [Nat.add_right_comm, follow_succ, target?_identifier, hd]
      exact ih

theorem resolve_of_chainEnds (h : a.ChainEnds e f) : a.resolve e = f := by
  obtain ⟨⟨k, hk⟩, hlast⟩ := h
  obtain ⟨rest, hrest⟩ := Nat.exists_eq_add_of_le (hk.le_size hlast)
  rw [resolve, hrest, follow_add_of_hops hk, follow_of_not_isAlias hlast]

/-- A chain either ends or does not. -/
theorem exists_chainEnds_of_not_chainEndless (h : ¬ a.ChainEndless e) :
    ∃ last, a.ChainEnds e last := by
  obtain ⟨k, hk⟩ := not_forall.mp h
  induction k with
  | zero => exact absurd ⟨e, .here e⟩ hk
  | succ k ih =>
      by_cases hf : ∃ f, a.Hops k e f
      · obtain ⟨f, hf⟩ := hf
        refine ⟨f, ⟨k, hf⟩, ?_⟩
        rintro ⟨n, hn, rfl⟩
        obtain ⟨body, hd⟩ := Registry.mem_keys_iff.mp hn
        exact hk ⟨body, hf.trans (.next hd (.here body))⟩
      · exact ih hf

/-- After as many hops as there are definitions an endless chain is on its cycle. -/
theorem ChainEndless.exists_onCycle (h : a.ChainEndless e) :
    ∃ n ∈ a.definitions.keys, a.Hops a.definitions.size e (.identifier n) ∧ a.OnCycle n := by
  obtain ⟨g, hg⟩ := h (a.definitions.size + 1)
  obtain ⟨n, hn, hsize⟩ := hg.passes (Nat.lt_succ_self _)
  obtain ⟨i, j, m, hij, hj, hi, hj'⟩ := hg.exists_repeat (Nat.lt_succ_self _)
  obtain ⟨rest, hrest⟩ := Nat.exists_eq_add_of_le hj
  obtain ⟨turn, rfl⟩ := Nat.exists_eq_add_of_lt hij
  refine ⟨n, hn, hsize, turn + 1, Nat.succ_pos _, ?_⟩
  have hturn : a.Hops (turn + 1) (.identifier m) (.identifier m) := by
    obtain ⟨f, hf, hback⟩ := hj'.split (j := i) (k := turn + 1)
    obtain rfl := hi.unique hf
    exact hback
  have hreach : a.Hops rest (.identifier m) (.identifier n) := by
    rw [hrest] at hsize
    obtain ⟨f, hf, hlater⟩ := hsize.split
    obtain rfl := hj'.unique hf
    exact hlater
  -- Going round first or last from the repeated name takes the same number of hops.
  obtain ⟨g', hg'⟩ := h (a.definitions.size + (turn + 1))
  obtain ⟨f, hf, hround⟩ := hg'.split
  obtain rfl := hsize.unique hf
  have hlast : g' = .identifier n := by
    refine (hreach.trans hround).unique ?_
    rw [Nat.add_comm]
    exact hturn.trans hreach
  exact hlast ▸ hround

theorem resolve_of_hops_size (h : a.Hops a.definitions.size e f) : a.resolve e = f :=
  follow_add_of_hops h 0

/-- The result of resolving is an alias exactly if the chain has no end. -/
theorem isAlias_resolve_iff : a.IsAlias (a.resolve e) ↔ a.ChainEndless e := by
  constructor
  · intro h
    by_contra hends
    obtain ⟨last, hlast⟩ := exists_chainEnds_of_not_chainEndless hends
    rw [resolve_of_chainEnds hlast] at h
    exact hlast.2 h
  · intro h
    obtain ⟨n, hn, hsize, _⟩ := h.exists_onCycle
    exact ⟨n, hn, resolve_of_hops_size hsize⟩

/-- Aliases by name are hops between names. -/
theorem aliasAfter_eq_some_iff {n m : String} :
    a.aliasAfter k n = some m ↔ a.Hops k (.identifier n) (.identifier m) := by
  induction k generalizing n with
  | zero =>
      constructor
      · rintro ⟨⟩
        exact .here _
      · intro h
        cases h
        rfl
  | succ k ih =>
      rw [aliasAfter_succ, Option.bind_eq_some_iff]
      constructor
      · rintro ⟨next, hn, hk⟩
        exact .next (aliasOf?_eq_some_iff.mp hn) (ih.mp hk)
      · intro h
        cases h with
        | @next _ _ body _ hd h =>
            -- Hops lead from a name only, and the last expression is one.
            obtain ⟨next, rfl⟩ : ∃ next, body = .identifier next := by
              cases h with
              | here => exact ⟨m, rfl⟩
              | next _ _ => exact ⟨_, rfl⟩
            exact ⟨next, aliasOf?_eq_some_iff.mpr hd, ih.mpr h⟩

theorem chainEndless_identifier_iff {n : String} :
    a.ChainEndless (.identifier n) ↔ a.Endless n := by
  constructor
  · intro h k
    obtain ⟨g, hg⟩ := h (k + 1)
    obtain ⟨m, _, hm⟩ := hg.passes (Nat.lt_succ_self k)
    rw [aliasAfter_eq_some_iff.mpr hm]
    rfl
  · intro h k
    obtain ⟨m, hm⟩ := Option.isSome_iff_exists.mp (h k)
    exact ⟨_, aliasAfter_eq_some_iff.mp hm⟩

/-- Resolving gives the last expression of a chain that ends, and the name on the
cycle to which as many hops as there are definitions lead if it does not. So the
check for cycles and resolving tell the same definitions apart. -/
theorem resolve_exact (a : Adapter) :
    (∀ e last, a.ChainEnds e last →
      a.resolve e = last ∧ ¬ a.IsAlias (a.resolve e) ∧ a.resolve (a.resolve e) = a.resolve e) ∧
    (∀ e, a.ChainEndless e → ∃ n ∈ a.definitions.keys,
      a.Hops a.definitions.size e (.identifier n) ∧ a.resolve e = .identifier n ∧ a.OnCycle n) ∧
    (∀ e, (∃ last, a.ChainEnds e last) ∨ a.ChainEndless e) ∧
    ∀ d ∈ a.definitions.keys,
      (a.repeatsFrom [] d = true ↔ a.IsAlias (a.resolve (.identifier d))) := by
  refine ⟨?_, ?_, ?_, ?_⟩
  · intro e last h
    have hlast := resolve_of_chainEnds h
    rw [hlast]
    exact ⟨rfl, h.2, follow_of_not_isAlias h.2 _⟩
  · intro e h
    obtain ⟨n, hn, hsize, hcycle⟩ := h.exists_onCycle
    exact ⟨n, hn, hsize, resolve_of_hops_size hsize, hcycle⟩
  · intro e
    by_cases h : a.ChainEndless e
    · exact Or.inr h
    · exact Or.inl (exists_chainEnds_of_not_chainEndless h)
  · intro d _
    rw [repeatsFrom_nil_iff, isAlias_resolve_iff, chainEndless_identifier_iff]

/-- Two aliases in a row, so that the chain takes every definition. -/
def aliasesInRow : Adapter :=
  ofChanges .postgresql
    [.definition "Id" (.identifier "Serial"), .definition "Serial" (.identifier "number")]

/-- An alias that leads into a cycle of two others. -/
def aliasIntoCycle : Adapter :=
  ofChanges .postgresql
    [.definition "In" (.identifier "Left"), .definition "Left" (.identifier "Right"),
      .definition "Right" (.identifier "Left")]

/-- A chain that takes every definition is followed to its end, and one that leads
into a cycle is left on the cycle. -/
theorem resolve_aliases_in_row_and_cycle :
    aliasesInRow.ChainEnds (.identifier "Id") (.identifier "number") ∧
    aliasesInRow.resolve (.identifier "Id") = .identifier "number" ∧
    aliasIntoCycle.ChainEndless (.identifier "In") ∧
    aliasIntoCycle.resolve (.identifier "In") = .identifier "Left" ∧
    aliasIntoCycle.OnCycle "Left" ∧
    aliasIntoCycle.repeatsFrom [] "In" = true := by
  have hends : aliasesInRow.ChainEnds (.identifier "Id") (.identifier "number") := by
    have hid : aliasesInRow.definitions.get? "Id" = some (.identifier "Serial") := by decide
    have hserial : aliasesInRow.definitions.get? "Serial" = some (.identifier "number") := by
      decide
    refine ⟨⟨2, .next hid (.next hserial (.here _))⟩, ?_⟩
    rintro ⟨n, hn, heq⟩
    obtain rfl := TypeExpr.identifier.inj heq
    exact absurd hn (by decide)
  have hresolve : aliasIntoCycle.resolve (.identifier "In") = .identifier "Left" := by decide
  have halias : aliasIntoCycle.IsAlias (aliasIntoCycle.resolve (.identifier "In")) :=
    ⟨"Left", by decide, hresolve⟩
  have hendless : aliasIntoCycle.ChainEndless (.identifier "In") := isAlias_resolve_iff.mp halias
  obtain ⟨n, _, _, hn, hcycle⟩ := (resolve_exact aliasIntoCycle).2.1 _ hendless
  obtain rfl : "Left" = n := TypeExpr.identifier.inj (hresolve.symm.trans hn)
  exact ⟨hends, ((resolve_exact aliasesInRow).1 _ _ hends).1, hendless, hresolve, hcycle,
    ((resolve_exact aliasIntoCycle).2.2.2 "In" (by decide)).mpr halias⟩

end Adapter

end DialectTypes
