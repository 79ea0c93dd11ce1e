import DialectTypes.Proofs.Emission
import DialectTypes.TypeExpr.Construction

/-!
# Needs that are put together

What an inner node needs is what its children need together, however the
definitions behind them overlap or lead back to each other. So the columns of a
table may be searched one by one or as the members of one union, in any order and
any number of times.

All of this follows from the names that are reached, since dependencies that list
their names in the right places are told by the names they list.
-/

namespace DialectTypes

namespace Dependencies

variable {a : Adapter} {ds : List Dependencies}

/-- What any number of types need together. -/
def unionAll (ds : List Dependencies) : Dependencies :=
  ds.foldl union empty

theorem lists_unionAll {n : String} : (unionAll ds).Lists n ↔ ∃ d ∈ ds, d.Lists n := by
  suffices ∀ d, (ds.foldl union d).Lists n ↔ d.Lists n ∨ ∃ e ∈ ds, e.Lists n by
    rw [unionAll, this]
    exact or_iff_right (not_lists_empty n)
  induction ds with
  | nil => simp
  | cons e ds ih =>
      intro d
      rw [List.foldl_cons, ih, lists_union]
      simp [or_assoc]

theorem placed_unionAll (h : ∀ d ∈ ds, d.Placed a) : (unionAll ds).Placed a :=
  List.foldlRecOn ds union (placed_empty a) fun _ hd e he => hd.union (h e he)

end Dependencies

namespace Adapter

section Children

variable {a : Adapter} {e : TypeExpr} {n : String}

/-- What an expression reaches that is not a name is reached by one of its children. -/
theorem Reaches.exists_child (he : e.kind ≠ .identifier) (h : a.Reaches e n) :
    ∃ c ∈ e.children, a.Reaches c n := by
  induction h with
  | here ho hb =>
      rcases TypeExpr.occurs_iff.mp ho with hroot | ⟨c, hc, ho⟩
      · obtain rfl := TypeExpr.name?_eq_some_iff.mp hroot
        exact absurd rfl he
      · exact ⟨c, hc, .here ho hb⟩
  | through _ hd ho hb ih =>
      obtain ⟨c, hc, hv⟩ := ih
      exact ⟨c, hc, .through hv hd ho hb⟩

theorem Reaches.of_child {c : TypeExpr} (hc : c ∈ e.children) (h : a.Reaches c n) :
    a.Reaches e n := by
  induction h with
  | here ho hb => exact .here (TypeExpr.occurs_iff.mpr (Or.inr ⟨c, hc, ho⟩)) hb
  | through _ hd ho hb ih => exact .through ih hd ho hb

theorem reaches_iff_children (he : e.kind ≠ .identifier) :
    a.Reaches e n ↔ ∃ c ∈ e.children, a.Reaches c n := by
  constructor
  · exact Reaches.exists_child he
  · rintro ⟨c, hc, h⟩
    exact h.of_child hc

/-- What a list of expressions needs together is what some expression needs, if both
reach the same names. -/
theorem dependencies_eq_unionAll {es : List TypeExpr}
    (h : ∀ n, a.Reaches e n ↔ ∃ c ∈ es, a.Reaches c n) :
    a.dependencies e = .unionAll (es.map a.dependencies) := by
  obtain ⟨hplaced, hlists⟩ := a.dependencies_placed_and_lists e
  refine hplaced.ext (Dependencies.placed_unionAll ?_) fun n => ?_
  · intro d hd
    obtain ⟨c, _, rfl⟩ := List.mem_map.mp hd
    exact (a.dependencies_placed_and_lists c).1
  · have hchild : ∀ c, (a.dependencies c).Lists n ↔ a.Reaches c n := fun c =>
      (a.dependencies_placed_and_lists c).2 n
    rw [hlists, h, Dependencies.lists_unionAll]
    constructor
    · rintro ⟨c, hc, hr⟩
      exact ⟨a.dependencies c, List.mem_map_of_mem hc, (hchild c).mpr hr⟩
    · rintro ⟨d, hd, hl⟩
      obtain ⟨c, hc, rfl⟩ := List.mem_map.mp hd
      exact ⟨c, hc, (hchild c).mp hl⟩

end Children

section Columns

variable (a : Adapter) (natives : List String)

theorem columnDependencies_eq_unionAll :
    a.columnDependencies natives =
      .unionAll ((natives.map a.scalarFor).map a.dependencies) := by
  rw [columnDependencies, Dependencies.unionAll, List.foldl_map, List.foldl_map]

/-- Columns that are searched one by one need what the union of their types needs. -/
theorem columnDependencies_eq_union :
    a.columnDependencies natives = a.dependencies (.union (natives.map a.scalarFor)) := by
  rw [columnDependencies_eq_unionAll]
  refine (dependencies_eq_unionAll fun n => ?_).symm
  exact reaches_iff_children (e := .union (natives.map a.scalarFor)) (by simp [TypeExpr.kind])

theorem columnDependencies_congr {natives others : List String}
    (h : ∀ native, native ∈ natives ↔ native ∈ others) :
    a.columnDependencies natives = a.columnDependencies others := by
  refine (placed_columnDependencies natives).ext (placed_columnDependencies others) fun n => ?_
  rw [lists_columnDependencies, lists_columnDependencies]
  simp only [h]

end Columns

/-- The dependencies of an expression that is not a name are those of its children
together. So what columns need together is what one union of their types needs, and
neither their order nor their number counts. -/
theorem dependencies_compositional (a : Adapter) :
    (∀ e : TypeExpr, e.kind ≠ .identifier →
      a.dependencies e = .unionAll (e.children.map a.dependencies)) ∧
    (∀ natives : List String, natives ≠ [] →
      ∃ e, TypeExpr.union? (natives.map a.scalarFor) = .ok e ∧
        a.columnDependencies natives = a.dependencies e) ∧
    ∀ natives others : List String, (∀ native, native ∈ natives ↔ native ∈ others) →
      a.columnDependencies natives = a.columnDependencies others := by
  refine ⟨?_, ?_, ?_⟩
  · intro e he
    exact dependencies_eq_unionAll fun n => reaches_iff_children he
  · intro natives hne
    refine ⟨.union (natives.map a.scalarFor), ?_, a.columnDependencies_eq_union natives⟩
    exact TypeExpr.union?_eq_ok_iff.mpr ⟨by simpa using hne, rfl⟩
  · intro natives others h
    exact a.columnDependencies_congr h

/-- Two definitions that refer to each other overlap with an import, and one column is
repeated. -/
theorem decimalTrees_compositional :
    (TypeExpr.array (.identifier "Tree")).kind ≠ .identifier ∧
    decimalTrees.dependencies (.array (.identifier "Tree")) =
      .unionAll [decimalTrees.dependencies (.identifier "Tree")] ∧
    ["tree", "point"] ≠ [] ∧
    decimalTrees.columnDependencies ["tree", "point"] =
      decimalTrees.dependencies (.union [.identifier "Tree", .identifier "unknown"]) ∧
    (∀ native, native ∈ ["tree", "point"] ↔ native ∈ ["point", "tree", "tree"]) ∧
    decimalTrees.columnDependencies ["tree", "point"] =
      decimalTrees.columnDependencies ["point", "tree", "tree"] := by
  obtain ⟨hchildren, hunion, hcongr⟩ := dependencies_compositional decimalTrees
  have hsame : ∀ native, native ∈ ["tree", "point"] ↔ native ∈ ["point", "tree", "tree"] := by
    intro native
    simp [or_comm]
  obtain ⟨e, he, hcolumns⟩ := hunion ["tree", "point"] (by simp)
  have hscalars : ["tree", "point"].map decimalTrees.scalarFor =
      [.identifier "Tree", .identifier "unknown"] := by decide
  rw [hscalars] at he
  obtain rfl := (TypeExpr.union?_eq_ok_iff.mp he).2
  exact ⟨by decide, hchildren _ (by decide), by simp, hcolumns, hsame, hcongr _ _ hsame⟩

end Adapter

end DialectTypes
