import DialectTypes.Proofs.Defects
import DialectTypes.Proofs.Dependencies

/-!
# What is emitted for columns

Generated code declares what its columns need together: the definitions and
imports that their types reach. A reference that nothing explains is found at
the place where it stands by validation and at the end of some path by the
dependencies, and one of them finds one exactly if the other does. So what is
emitted from a valid adapter explains every name in it, also where a column has
the default type or definitions refer to themselves.
-/

namespace DialectTypes

namespace Dependencies

/-- The name is a builtin, a definition or an import, and no two of them. -/
def Explains (d : Dependencies) (n : String) : Prop :=
  TypeExpr.isBuiltin n = true ∧ n ∉ d.definitions.toList ∧ n ∉ d.imports.keys ∨
  TypeExpr.isBuiltin n = false ∧ n ∈ d.definitions.toList ∧ n ∉ d.imports.keys ∨
  TypeExpr.isBuiltin n = false ∧ n ∉ d.definitions.toList ∧ n ∈ d.imports.keys

variable {a : Adapter} {d e : Dependencies} {n : String}

theorem mem_definitions_union :
    n ∈ (d.union e).definitions.toList ↔
      n ∈ d.definitions.toList ∨ n ∈ e.definitions.toList :=
  Registry.mem_keys_union

theorem mem_unresolved_union :
    n ∈ (d.union e).unresolved.toList ↔ n ∈ d.unresolved.toList ∨ n ∈ e.unresolved.toList :=
  Registry.mem_keys_union

theorem lists_union : (d.union e).Lists n ↔ d.Lists n ∨ e.Lists n := by
  have himports : n ∈ (d.union e).imports.keys ↔ n ∈ d.imports.keys ∨ n ∈ e.imports.keys :=
    Registry.mem_keys_union
  rw [Lists, mem_definitions_union, himports, mem_unresolved_union, Lists, Lists]
  grind

theorem Placed.union (hd : d.Placed a) (he : e.Placed a) : (d.union e).Placed a := by
  refine ⟨?_, ?_, ?_⟩
  · intro n hn
    exact (mem_definitions_union.mp hn).elim (hd.definitions n) (he.definitions n)
  · intro n source hs
    rw [Dependencies.union, Registry.get?_union] at hs
    rcases Option.or_eq_some_iff.mp hs with hs | ⟨_, hs⟩
    · exact he.imports n source hs
    · exact hd.imports n source hs
  · intro n hn
    exact (mem_unresolved_union.mp hn).elim (hd.unresolved n) (he.unresolved n)

/-- What is listed in its place is never a definition and an import at once. -/
theorem Placed.not_mem_imports (h : d.Placed a) (hn : n ∈ d.definitions.toList) :
    n ∉ d.imports.keys := by
  intro hi
  obtain ⟨source, hs⟩ := Registry.mem_keys_iff.mp hi
  exact (h.imports n source hs).1 (h.definitions n hn)

end Dependencies

namespace Adapter

variable {a : Adapter}

section Columns

/-- What holds of a union if it holds of a part of it holds of the columns together
if it holds of one of them. -/
theorem columnDependencies_iff {P : Dependencies → Prop}
    (hunion : ∀ d e : Dependencies, P (d.union e) ↔ P d ∨ P e) (hempty : ¬ P .empty)
    (natives : List String) :
    P (a.columnDependencies natives) ↔
      ∃ native ∈ natives, P (a.dependencies (a.scalarFor native)) := by
  suffices ∀ d, P (natives.foldl
      (fun d native => d.union (a.dependencies (a.scalarFor native))) d) ↔
        P d ∨ ∃ native ∈ natives, P (a.dependencies (a.scalarFor native)) by
    rw [columnDependencies, this]
    exact or_iff_right hempty
  intro d
  induction natives generalizing d with
  | nil => simp
  | cons native natives ih =>
      rw [List.foldl_cons, ih, hunion]
      simp [or_assoc]

variable {natives : List String} {n : String}

theorem mem_definitions_columnDependencies :
    n ∈ (a.columnDependencies natives).definitions.toList ↔ ∃ native ∈ natives,
      n ∈ (a.dependencies (a.scalarFor native)).definitions.toList :=
  columnDependencies_iff (P := fun d => n ∈ d.definitions.toList)
    (fun _ _ => Dependencies.mem_definitions_union)
    (fun h => Dependencies.not_lists_empty n (Or.inl h)) natives

theorem mem_unresolved_columnDependencies :
    n ∈ (a.columnDependencies natives).unresolved.toList ↔ ∃ native ∈ natives,
      n ∈ (a.dependencies (a.scalarFor native)).unresolved.toList :=
  columnDependencies_iff (P := fun d => n ∈ d.unresolved.toList)
    (fun _ _ => Dependencies.mem_unresolved_union)
    (fun h => Dependencies.not_lists_empty n (Or.inr (Or.inr h))) natives

theorem lists_columnDependencies :
    (a.columnDependencies natives).Lists n ↔
      ∃ native ∈ natives, a.Reaches (a.scalarFor native) n := by
  rw [columnDependencies_iff (P := fun d => d.Lists n) (fun _ _ => Dependencies.lists_union)
    (Dependencies.not_lists_empty n)]
  simp only [(a.dependencies_placed_and_lists _).2]

theorem placed_columnDependencies (natives : List String) :
    (a.columnDependencies natives).Placed a :=
  List.foldlRecOn natives _ (Dependencies.placed_empty a) fun _ hd native _ =>
    hd.union (a.dependencies_placed_and_lists (a.scalarFor native)).1

end Columns

section Holes

/-- A path from a place to a name that nothing explains ends at a dangling reference,
of the place itself or of the last definition that it passes. -/
theorem exists_dangles_of_reaches {p : Place} {e : TypeExpr} (he : a.typeAt? p = some e)
    {n : String} (hr : a.Reaches e n) (hn : a.Unknown n) : ∃ q, a.Dangles q n := by
  cases hr with
  | here ho _ => exact ⟨p, e, he, ho, hn⟩
  | @through via _ body _ hd ho _ => exact ⟨.definition via, body, hd, ho, hn⟩

theorem mem_unresolved_iff_unknown {e : TypeExpr} {n : String} :
    n ∈ (a.dependencies e).unresolved.toList ↔ a.Reaches e n ∧ a.Unknown n := by
  rw [mem_unresolved_dependencies]
  constructor
  · rintro ⟨hr, hk⟩
    exact ⟨hr, hr.isBuiltin_eq_false, hk⟩
  · rintro ⟨hr, _, hk⟩
    exact ⟨hr, hk⟩

/-- Some place has a dangling reference exactly if the type at some place needs a
name that nothing explains. -/
theorem exists_dangles_iff :
    (∃ p n, a.Dangles p n) ↔
      ∃ p type, a.typeAt? p = some type ∧ (a.dependencies type).unresolved.toList ≠ [] := by
  constructor
  · rintro ⟨p, n, type, ht, ho, hn⟩
    refine ⟨p, type, ht, List.ne_nil_of_mem (a := n) ?_⟩
    exact mem_unresolved_iff_unknown.mpr ⟨.here ho hn.1, hn⟩
  · rintro ⟨p, type, ht, hne⟩
    obtain ⟨n, hn⟩ := List.exists_mem_of_ne_nil _ hne
    obtain ⟨hr, hunknown⟩ := mem_unresolved_iff_unknown.mp hn
    obtain ⟨q, hq⟩ := exists_dangles_of_reaches ht hr hunknown
    exact ⟨q, n, hq⟩

theorem validate_eq_danglingReference_iff (ha : ∀ n, ¬ a.Ambiguous n) :
    (∃ entry n, a.validate = .error (.danglingReference entry n)) ↔ ∃ p n, a.Dangles p n := by
  constructor
  · rintro ⟨entry, n, hv⟩
    cases a.validate_eq_iff.mp hv with
    | danglingReference _ h => exact ⟨_, n, h.dangles⟩
  · rintro ⟨p, n, hp⟩
    have hverdict := a.verdict_validate
    generalize a.validate = result at hverdict ⊢
    cases hverdict with
    | ambiguousName h => exact absurd h.1 (ha _)
    | danglingReference _ h => exact ⟨_, _, rfl⟩
    | aliasCycle _ hd _ => exact absurd hp (hd p n)
    | valid _ hd _ => exact absurd hp (hd p n)

theorem not_dangles_of_validate_eq_ok (h : a.validate = .ok ()) (p : Place) (n : String) :
    ¬ a.Dangles p n := by
  cases a.validate_eq_iff.mp h with
  | valid _ hd _ => exact hd p n

theorem exists_typeAt?_scalarFor (a : Adapter) (native : String) :
    ∃ p, a.typeAt? p = some (a.scalarFor native) := by
  cases h : a.scalars.get? native with
  | some type => exact ⟨.scalar native, by simp [typeAt?, scalarFor, h]⟩
  | none => exact ⟨.defaultScalar, by simp [typeAt?, scalarFor, h]⟩

end Holes

/-- The name occurs in the type of one of the columns or in a definition that is
emitted for them. -/
def OccursInEmission (a : Adapter) (natives : List String) (n : String) : Prop :=
  (∃ native ∈ natives, (a.scalarFor native).Occurs n) ∨
    ∃ via ∈ (a.columnDependencies natives).definitions.toList,
      ∃ body, a.definitions.get? via = some body ∧ body.Occurs n

/-- Every name that occurs in what is emitted is met on the way from one column. -/
theorem OccursInEmission.exists_meets {natives : List String} {n : String}
    (h : a.OccursInEmission natives n) :
    ∃ native ∈ natives, a.Meets (a.scalarFor native) n := by
  rcases h with ⟨native, hnative, ho⟩ | ⟨via, hv, body, hd, ho⟩
  · exact ⟨native, hnative, Or.inl ho⟩
  · obtain ⟨native, hnative, hv⟩ := mem_definitions_columnDependencies.mp hv
    exact ⟨native, hnative, Or.inr ⟨via, hv, body, hd, ho⟩⟩

theorem unresolved_columnDependencies_of_valid (h : a.validate = .ok ()) (natives : List String) :
    (a.columnDependencies natives).unresolved.toList = [] := by
  rw [List.eq_nil_iff_forall_not_mem]
  intro n hn
  obtain ⟨native, _, hn⟩ := mem_unresolved_columnDependencies.mp hn
  obtain ⟨hr, hunknown⟩ := mem_unresolved_iff_unknown.mp hn
  obtain ⟨p, hp⟩ := a.exists_typeAt?_scalarFor native
  obtain ⟨q, hq⟩ := exists_dangles_of_reaches hp hr hunknown
  exact not_dangles_of_validate_eq_ok h q n hq

theorem explains_of_valid (h : a.validate = .ok ()) {natives : List String} {n : String}
    (ho : a.OccursInEmission natives n) : (a.columnDependencies natives).Explains n := by
  obtain ⟨native, hnative, hmeets⟩ := ho.exists_meets
  have hplaced := placed_columnDependencies (a := a) natives
  cases hb : TypeExpr.isBuiltin n with
  | true =>
      have hnot : ¬ (a.columnDependencies natives).Lists n := by
        rw [lists_columnDependencies]
        rintro ⟨other, _, hr⟩
        simp [hr.isBuiltin_eq_false] at hb
      exact Or.inl ⟨hb, fun hd => hnot (Or.inl hd), fun hi => hnot (Or.inr (Or.inl hi))⟩
  | false =>
      have hlists : (a.columnDependencies natives).Lists n :=
        lists_columnDependencies.mpr ⟨native, hnative, (reaches_iff_of_meets hmeets).mpr hb⟩
      rcases hlists with hd | hi | hu
      · exact Or.inr (Or.inl ⟨hb, hd, hplaced.not_mem_imports hd⟩)
      · exact Or.inr (Or.inr ⟨hb, fun hd => hplaced.not_mem_imports hd hi, hi⟩)
      · rw [unresolved_columnDependencies_of_valid h] at hu
        exact absurd hu List.not_mem_nil

/-- Validation finds a dangling reference exactly if the dependencies of some type of
the adapter are not all explained, where no name is ambiguous. What is emitted from
a valid adapter, for columns of any native types, explains every name that occurs in
it in one way and leaves none unresolved. -/
theorem emission_self_contained (a : Adapter) :
    ((∀ n, ¬ a.Ambiguous n) →
      ((∃ entry n, a.validate = .error (.danglingReference entry n)) ↔
        ∃ p type, a.typeAt? p = some type ∧
          (a.dependencies type).unresolved.toList ≠ [])) ∧
    (a.validate = .ok () → ∀ natives,
      (a.columnDependencies natives).unresolved.toList = [] ∧
      (∀ n ∈ (a.columnDependencies natives).definitions.toList,
        n ∉ (a.columnDependencies natives).imports.keys) ∧
      ∀ n, a.OccursInEmission natives n → (a.columnDependencies natives).Explains n) := by
  constructor
  · intro ha
    rw [validate_eq_danglingReference_iff ha, exists_dangles_iff]
  · intro h natives
    refine ⟨unresolved_columnDependencies_of_valid h natives, ?_, ?_⟩
    · intro n hn
      exact (placed_columnDependencies natives).not_mem_imports hn
    · intro n hn
      exact explains_of_valid h hn

/-- An adapter with two definitions that refer to each other, an import and a scalar. -/
def decimalTrees : Adapter :=
  ofChanges .postgresql
    [.definition "Tree" (.array (.identifier "Node")),
      .definition "Node" (.union [.identifier "Tree", .identifier "Decimal"]),
      .imported "Decimal" "decimal.js", .scalar "tree" (.identifier "Tree")]

/-- An adapter whose only scalar refers to a definition that refers to nothing. -/
def holeBehindShape : Adapter :=
  ofChanges .sqlite
    [.definition "Shape" (.array (.identifier "Point")), .scalar "shape" (.identifier "Shape")]

theorem validate_decimalTrees : decimalTrees.validate = .ok () := by
  have hambiguous : decimalTrees.ambiguousName? = none := by decide
  have hdangling : decimalTrees.danglingReference? = none := by decide
  have hkeys : decimalTrees.definitions.keys = ["Node", "Tree"] := by decide
  have hnode : decimalTrees.aliasOf? "Node" = none := by decide
  have htree : decimalTrees.aliasOf? "Tree" = none := by decide
  have hcycle : decimalTrees.aliasCycle? = none := by
    simp [aliasCycle?, hkeys, repeatsFrom_of_eq_none hnode, repeatsFrom_of_eq_none htree]
  simp [validate_eq_ok_iff, defect?, hambiguous, hdangling, hcycle]

/-- A name that only the definition of a definition mentions is explained, also beside a
column of unknown type, and a hole is found from a scalar that only leads to it. -/
theorem decimalTrees_emission :
    decimalTrees.validate = .ok () ∧
    decimalTrees.OccursInEmission ["tree", "point"] "Decimal" ∧
    (decimalTrees.columnDependencies ["tree", "point"]).Explains "Decimal" ∧
    (∀ n, ¬ holeBehindShape.Ambiguous n) ∧
    "Point" ∈ (holeBehindShape.dependencies (.identifier "Shape")).unresolved.toList ∧
    ∃ entry n, holeBehindShape.validate = .error (.danglingReference entry n) := by
  have hnode : decimalTrees.Reaches (.identifier "Tree") "Node" :=
    .through (.here .identifier (by decide)) (by decide) (.element .identifier) (by decide)
  have hemitted :
      "Node" ∈ (decimalTrees.columnDependencies ["tree", "point"]).definitions.toList :=
    mem_definitions_columnDependencies.mpr ⟨"tree", List.mem_cons_self,
      (mem_definitions_dependencies _ _).mpr ⟨hnode, by decide⟩⟩
  have hocc : decimalTrees.OccursInEmission ["tree", "point"] "Decimal" := by
    refine Or.inr ⟨"Node", hemitted, _, rfl, ?_⟩
    exact .member (List.mem_cons_of_mem _ List.mem_cons_self) .identifier
  have hunambiguous : ∀ n, ¬ holeBehindShape.Ambiguous n := fun n hn =>
    absurd hn.2 List.not_mem_nil
  have hpoint : holeBehindShape.Reaches (.identifier "Shape") "Point" :=
    .through (.here .identifier (by decide)) (by decide) (.element .identifier) (by decide)
  have hhole : "Point" ∈
      (holeBehindShape.dependencies (.identifier "Shape")).unresolved.toList :=
    (mem_unresolved_dependencies _ _).mpr ⟨hpoint, by decide, by decide⟩
  refine ⟨validate_decimalTrees, hocc, ?_, hunambiguous, hhole, ?_⟩
  · exact ((emission_self_contained decimalTrees).2 validate_decimalTrees _).2.2 _ hocc
  · apply ((emission_self_contained holeBehindShape).1 hunambiguous).mpr
    exact ⟨.scalar "shape", .identifier "Shape", by decide, List.ne_nil_of_mem hhole⟩

end Adapter

end DialectTypes
