import DialectTypes.Proofs.Composition
import DialectTypes.Proofs.Resolution

/-!
# What lies behind an alias

An expression needs the definitions over which it is resolved, whatever the result
of resolving needs, and nothing else. So the types of a resolved column refer to
nothing that the dependencies of the column leave out.

One hop from an alias to its definition gives up one name, which is the name of a
definition. A chain of hops gives up the names it passes, and resolving makes such
a chain, whether it comes to an end or is left on a cycle.

A definition under the name of a builtin is hopped over but is needed by nothing,
which is why such definitions are excluded.
-/

namespace DialectTypes

namespace Dependencies

/-- Every part of the first is contained in the same part of the second. -/
structure Within (d e : Dependencies) : Prop where
  definitions : ∀ n ∈ d.definitions.toList, n ∈ e.definitions.toList
  imports : ∀ n source, d.imports.get? n = some source → e.imports.get? n = some source
  unresolved : ∀ n ∈ d.unresolved.toList, n ∈ e.unresolved.toList

/-- Names that are listed in their places are contained part by part. -/
theorem Placed.within {a : Adapter} {d e : Dependencies} (hd : d.Placed a) (he : e.Placed a)
    (h : ∀ n, d.Lists n → e.Lists n) : d.Within e where
  definitions n hn := by
    have ⟨hl, hk⟩ := hd.mem_definitions_iff.mp hn
    exact he.mem_definitions_iff.mpr ⟨h n hl, hk⟩
  imports n source hs := by
    have ⟨hl, hk⟩ := hd.get?_imports_iff.mp hs
    exact he.get?_imports_iff.mpr ⟨h n hl, hk⟩
  unresolved n hn := by
    have ⟨hl, hk⟩ := hd.mem_unresolved_iff.mp hn
    exact he.mem_unresolved_iff.mpr ⟨h n hl, hk⟩

end Dependencies

theorem TypeExpr.slot_eq_or_mem_children (e : TypeExpr) (s : Slot) :
    e.slot s = e ∨ e.slot s ∈ e.children := by
  cases e with
  | columnType _ _ _ => cases s <;> simp [slot, children]
  | _ => cases s <;> exact Or.inl rfl

namespace Adapter

/-- No definition stands under the name of a builtin. -/
def DefinesNoBuiltin (a : Adapter) : Prop :=
  ∀ n ∈ a.definitions.keys, TypeExpr.isBuiltin n = false

instance (a : Adapter) : Decidable a.DefinesNoBuiltin :=
  inferInstanceAs (Decidable (∀ n ∈ a.definitions.keys, TypeExpr.isBuiltin n = false))

/-- Resolving the expression hops over the definition: the chain comes to its name after
fewer hops than there are definitions, so another hop is made. -/
def HopsOver (a : Adapter) (e : TypeExpr) (n : String) : Prop :=
  n ∈ a.definitions.keys ∧ ∃ k < a.definitions.size, a.Hops k e (.identifier n)

variable {a : Adapter} {e f : TypeExpr} {n : String} {j k : Nat}

/-- A name that a chain passes on its way is the name of a definition. -/
theorem Hops.mem_keys (h : a.Hops k e f) (hjk : j < k) (hn : a.Hops j e (.identifier n)) :
    n ∈ a.definitions.keys := by
  obtain ⟨m, hm, hpass⟩ := h.passes hjk
  obtain rfl := TypeExpr.identifier.inj (hn.unique hpass)
  exact hm

/-- Resolving makes a number of hops, and it hops over the names that the chain passes
before the last of them. -/
theorem exists_hops_resolve (a : Adapter) (e : TypeExpr) :
    ∃ k, a.Hops k e (a.resolve e) ∧
      ∀ n, a.HopsOver e n ↔ ∃ j < k, a.Hops j e (.identifier n) := by
  by_cases h : a.ChainEndless e
  · obtain ⟨m, _, hsize, _⟩ := h.exists_onCycle
    refine ⟨a.definitions.size, resolve_of_hops_size hsize ▸ hsize, fun n => ?_⟩
    refine and_iff_right_of_imp ?_
    rintro ⟨j, hj, hn⟩
    exact hsize.mem_keys hj hn
  · obtain ⟨last, hends⟩ := exists_chainEnds_of_not_chainEndless h
    rw [resolve_of_chainEnds hends]
    obtain ⟨⟨k, hk⟩, hlast⟩ := hends
    refine ⟨k, hk, fun n => ⟨?_, ?_⟩⟩
    · rintro ⟨hn, j, _, hj⟩
      -- The last expression of the chain is no alias, so the name stands before it.
      have hne : j ≠ k := by
        rintro rfl
        exact hlast ⟨n, hn, hk.unique hj⟩
      have hle := hk.le_of_not_isAlias hlast hj
      exact ⟨j, by omega, hj⟩
    · rintro ⟨j, hj, hn⟩
      have hle := hk.le_size hlast
      exact ⟨hk.mem_keys hj hn, j, by omega, hn⟩

/-- An alias reaches its own name and what its definition reaches. -/
theorem reaches_identifier_iff {body : TypeExpr} {m : String}
    (hb : TypeExpr.isBuiltin m = false) (hd : a.definitions.get? m = some body) :
    a.Reaches (.identifier m) n ↔ n = m ∨ a.Reaches body n := by
  constructor
  · intro h
    induction h with
    | here ho _ =>
        cases ho
        exact Or.inl rfl
    | through _ hd' ho hb' ih =>
        rcases ih with rfl | hv
        · obtain rfl := Option.some.inj (hd.symm.trans hd')
          exact Or.inr (.here ho hb')
        · exact Or.inr (.through hv hd' ho hb')
  · have hself : a.Reaches (.identifier m) m := .here .identifier hb
    rintro (rfl | h)
    · exact hself
    · induction h with
      | here ho hb' => exact .through hself hd ho hb'
      | through _ hd' ho hb' ih => exact .through ih hd' ho hb'

/-- A chain starts with its first name, and passes what the rest of it passes. -/
theorem exists_hops_lt_succ_iff {body : TypeExpr} {m : String}
    (hd : a.definitions.get? m = some body) :
    (∃ j < k + 1, a.Hops j (.identifier m) (.identifier n)) ↔
      n = m ∨ ∃ j < k, a.Hops j body (.identifier n) := by
  constructor
  · rintro ⟨j, hj, h⟩
    cases h with
    | here => exact Or.inl rfl
    | @next i _ _ _ hd' h =>
        obtain rfl := Option.some.inj (hd.symm.trans hd')
        exact Or.inr ⟨i, by omega, h⟩
  · rintro (rfl | ⟨j, hj, h⟩)
    · exact ⟨0, by omega, .here _⟩
    · exact ⟨j + 1, by omega, .next hd h⟩

/-- Hops give up the names that they pass and keep everything else that is reached. -/
theorem Hops.reaches_iff (ha : a.DefinesNoBuiltin) (h : a.Hops k e f) :
    a.Reaches e n ↔ a.Reaches f n ∨ ∃ j < k, a.Hops j e (.identifier n) := by
  induction h with
  | here e => simp
  | @next k m body last hd _ ih =>
      have hb := ha m (Registry.mem_keys_iff.mpr ⟨body, hd⟩)
      rw [reaches_identifier_iff hb hd, ih, exists_hops_lt_succ_iff hd]
      exact or_left_comm

theorem reaches_iff_resolve (ha : a.DefinesNoBuiltin) :
    a.Reaches e n ↔ a.Reaches (a.resolve e) n ∨ a.HopsOver e n := by
  obtain ⟨k, hk, hover⟩ := a.exists_hops_resolve e
  rw [hk.reaches_iff ha, hover]

/-- What one direction of a type reaches, the type reaches. -/
theorem Reaches.of_slot {s : TypeExpr.Slot} (h : a.Reaches (e.slot s) n) : a.Reaches e n := by
  rcases e.slot_eq_or_mem_children s with hs | hs
  · rwa [hs] at h
  · exact h.of_child hs

/-- What a resolved type refers to in one direction is needed by the expression. -/
theorem reaches_of_reaches_slot_resolve (ha : a.DefinesNoBuiltin) {s : TypeExpr.Slot}
    (h : a.Reaches ((a.resolve e).slot s) n) : a.Reaches e n :=
  (reaches_iff_resolve ha).mpr (Or.inl h.of_slot)

/-- An expression has the dependencies of what it resolves to, together with the names of
the definitions that are hopped over. So the dependencies of each direction of the
resolved type are among those of the expression, which list every name, apart from
builtins, that occurs there. -/
theorem dependencies_along_aliases (a : Adapter) (ha : a.DefinesNoBuiltin) (e : TypeExpr) :
    (∀ s, (a.dependencies ((a.resolve e).slot s)).Within (a.dependencies e)) ∧
    (∀ n, n ∈ (a.dependencies e).definitions.toList ↔
      n ∈ (a.dependencies (a.resolve e)).definitions.toList ∨ a.HopsOver e n) ∧
    (a.dependencies e).imports = (a.dependencies (a.resolve e)).imports ∧
    (a.dependencies e).unresolved = (a.dependencies (a.resolve e)).unresolved ∧
    ∀ s n, ((a.resolve e).slot s).Occurs n → TypeExpr.isBuiltin n = false →
      (a.dependencies e).Lists n := by
  obtain ⟨hplaced, hlists⟩ := a.dependencies_placed_and_lists e
  -- What is hopped over is a definition, so it counts for the definitions only.
  have hnot : ∀ n, n ∉ a.definitions.keys → (a.Reaches e n ↔ a.Reaches (a.resolve e) n) := by
    intro n hn
    rw [reaches_iff_resolve ha]
    exact or_iff_left fun hover => hn hover.1
  refine ⟨?_, ?_, ?_, ?_, ?_⟩
  · intro s
    obtain ⟨hslot, hlistsSlot⟩ := a.dependencies_placed_and_lists ((a.resolve e).slot s)
    refine hslot.within hplaced fun n hn => ?_
    rw [hlistsSlot] at hn
    exact (hlists n).mpr (reaches_of_reaches_slot_resolve ha hn)
  · intro n
    rw [mem_definitions_dependencies, mem_definitions_dependencies, reaches_iff_resolve ha,
      or_and_right]
    exact or_congr_right (and_iff_left_of_imp And.left)
  · ext n source
    rw [get?_imports_dependencies, get?_imports_dependencies]
    exact and_congr_left fun hn => hnot n hn.1
  · refine NameSet.ext_toList fun n => ?_
    rw [mem_unresolved_dependencies, mem_unresolved_dependencies]
    exact and_congr_left fun hn => hnot n hn.1
  · intro s n ho hb
    exact (hlists n).mpr (reaches_of_reaches_slot_resolve ha (.here ho hb))

/-- An adapter in which an alias leads to a column type that refers back to the alias, to
an import and to a name that nothing explains. -/
def spanColumns : Adapter :=
  ofChanges .postgresql
    [.definition "Span" (.identifier "Interval"),
      .definition "Interval"
        (.columnType (.identifier "IPostgresInterval")
          (.union [.identifier "Span", .identifier "number"]) (.array (.identifier "Missing"))),
      .imported "IPostgresInterval" "postgres-interval", .scalar "interval" (.identifier "Span")]

/-- The alias is needed although it is hopped over, the insert type needs no more than the
column, and an alias that leads into a cycle needs the definitions of the cycle. -/
theorem spanColumns_along_aliases :
    spanColumns.DefinesNoBuiltin ∧
    spanColumns.HopsOver (.identifier "Span") "Span" ∧
    "Span" ∈ (spanColumns.dependencies (.identifier "Span")).definitions.toList ∧
    ((spanColumns.resolve (.identifier "Span")).slot .update).Occurs "Missing" ∧
    (spanColumns.dependencies (.identifier "Span")).Lists "Missing" ∧
    (spanColumns.dependencies ((spanColumns.resolve (.identifier "Span")).slot .insert)).Within
      (spanColumns.dependencies (.identifier "Span")) ∧
    aliasIntoCycle.DefinesNoBuiltin ∧
    aliasIntoCycle.HopsOver (.identifier "In") "In" ∧
    "In" ∈ (aliasIntoCycle.dependencies (.identifier "In")).definitions.toList := by
  have hspan : spanColumns.DefinesNoBuiltin := by decide
  have hcycle : aliasIntoCycle.DefinesNoBuiltin := by decide
  have hover : spanColumns.HopsOver (.identifier "Span") "Span" :=
    ⟨by decide, 0, by decide, .here _⟩
  have hin : aliasIntoCycle.HopsOver (.identifier "In") "In" :=
    ⟨by decide, 0, by decide, .here _⟩
  have hresolve : spanColumns.resolve (.identifier "Span") =
      .columnType (.identifier "IPostgresInterval")
        (.union [.identifier "Span", .identifier "number"])
        (.array (.identifier "Missing")) := by decide
  have hmissing :
      ((spanColumns.resolve (.identifier "Span")).slot .update).Occurs "Missing" := by
    rw [hresolve]
    exact .element .identifier
  obtain ⟨hwithin, hdefinitions, _, _, hlists⟩ :=
    dependencies_along_aliases spanColumns hspan (.identifier "Span")
  obtain ⟨_, hdefinitionsIn, _⟩ :=
    dependencies_along_aliases aliasIntoCycle hcycle (.identifier "In")
  exact ⟨hspan, hover, (hdefinitions _).mpr (Or.inr hover), hmissing,
    hlists .update _ hmissing (by decide), hwithin .insert, hcycle, hin,
    (hdefinitionsIn _).mpr (Or.inr hin)⟩

end Adapter

end DialectTypes
