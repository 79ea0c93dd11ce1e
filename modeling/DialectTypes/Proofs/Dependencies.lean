import DialectTypes.Adapter.Lookup
import DialectTypes.Proofs.AliasChains
import DialectTypes.Proofs.Reachability

/-!
# What the dependencies contain

The dependencies of an expression are the names it reaches, divided into the
definitions, the imports and the rest. They divide the names as a lookup does,
except for a definition or an import under the name of a builtin: a lookup finds
it, and no dependency refers to it.
-/

namespace DialectTypes

namespace Adapter

variable (a : Adapter) (e : TypeExpr)

theorem mem_definitions_dependencies {n : String} :
    n ∈ (a.dependencies e).definitions.toList ↔ a.Reaches e n ∧ n ∈ a.definitions.keys := by
  obtain ⟨hplaced, hlists⟩ := a.dependencies_placed_and_lists e
  rw [hplaced.mem_definitions_iff, hlists]

theorem get?_imports_dependencies {n : String} {source : ModuleRef} :
    (a.dependencies e).imports.get? n = some source ↔
      a.Reaches e n ∧ n ∉ a.definitions.keys ∧ a.imports.get? n = some source := by
  obtain ⟨hplaced, hlists⟩ := a.dependencies_placed_and_lists e
  rw [hplaced.get?_imports_iff, hlists]

theorem mem_unresolved_dependencies {n : String} :
    n ∈ (a.dependencies e).unresolved.toList ↔
      a.Reaches e n ∧ n ∉ a.definitions.keys ∧ n ∉ a.imports.keys := by
  obtain ⟨hplaced, hlists⟩ := a.dependencies_placed_and_lists e
  rw [hplaced.mem_unresolved_iff, hlists]

/-- The dependencies are the transitive closure of an expression: every name it
reaches, and no other, as a definition, as an import of the adapter or as a name
that nothing explains. -/
theorem dependencies_eq_closure :
    (∀ n, n ∈ (a.dependencies e).definitions.toList ↔
      a.Reaches e n ∧ n ∈ a.definitions.keys) ∧
    (∀ n source, (a.dependencies e).imports.get? n = some source ↔
      a.Reaches e n ∧ n ∉ a.definitions.keys ∧ a.imports.get? n = some source) ∧
    (∀ n, n ∈ (a.dependencies e).unresolved.toList ↔
      a.Reaches e n ∧ n ∉ a.definitions.keys ∧ n ∉ a.imports.keys) :=
  ⟨fun _ => a.mem_definitions_dependencies e, fun _ _ => a.get?_imports_dependencies e,
    fun _ => a.mem_unresolved_dependencies e⟩

/-- What a lookup finds, by what the adapter has under the name. -/
theorem lookup?_cases (n : String) :
    (∃ body, a.definitions.get? n = some body ∧ a.lookup? n = some (.definition body)) ∨
    (a.definitions.get? n = none ∧
      ∃ source, a.imports.get? n = some source ∧ a.lookup? n = some (.imported source)) ∨
    (a.definitions.get? n = none ∧ a.imports.get? n = none ∧ TypeExpr.isBuiltin n = true ∧
      a.lookup? n = some .builtin) ∨
    (a.definitions.get? n = none ∧ a.imports.get? n = none ∧ TypeExpr.isBuiltin n = false ∧
      a.lookup? n = none) := by
  unfold lookup?
  cases a.definitions.get? n with
  | some body => simp
  | none =>
      cases a.imports.get? n with
      | some source => simp
      | none => cases TypeExpr.isBuiltin n <;> simp

/-- The name occurs in the expression or in a definition among its dependencies. -/
def Meets (n : String) : Prop :=
  e.Occurs n ∨ ∃ via ∈ (a.dependencies e).definitions.toList,
    ∃ body, a.definitions.get? via = some body ∧ body.Occurs n

/-- The dependencies and a lookup take the name for the same thing. -/
structure ClassifiedAlike (n : String) : Prop where
  definition : n ∈ (a.dependencies e).definitions.toList ↔
    ∃ body, a.lookup? n = some (.definition body)
  imported : ∀ source, (a.dependencies e).imports.get? n = some source ↔
    a.lookup? n = some (.imported source)
  unresolved : n ∈ (a.dependencies e).unresolved.toList ↔ a.lookup? n = none
  builtin : ¬ (a.dependencies e).Lists n ↔ a.lookup? n = some .builtin

/-- The adapter has a definition or an import under the name of a builtin. -/
def ShadowsBuiltin (n : String) : Prop :=
  TypeExpr.isBuiltin n = true ∧ (n ∈ a.definitions.keys ∨ n ∈ a.imports.keys)

variable {a e} {n : String}

theorem reaches_iff_of_meets (h : a.Meets e n) :
    a.Reaches e n ↔ TypeExpr.isBuiltin n = false := by
  constructor
  · exact Reaches.isBuiltin_eq_false
  · intro hb
    rcases h with h | ⟨via, hv, body, hd, h⟩
    · exact Reaches.here h hb
    · have hr := ((a.mem_definitions_dependencies e).mp hv).1
      exact Reaches.through hr hd h hb

/-- Where no builtin is shadowed, the dependencies take every name that they meet
for what a lookup finds. A shadowed builtin is a definition or an import for the
lookup and nothing for the dependencies. -/
theorem classifiedAlike_unless_shadowed (h : a.Meets e n) :
    (¬ a.ShadowsBuiltin n → a.ClassifiedAlike e n) ∧
    (a.ShadowsBuiltin n → ¬ (a.dependencies e).Lists n ∧
      ((∃ body, a.lookup? n = some (.definition body)) ∨
        ∃ source, a.lookup? n = some (.imported source))) := by
  have hr := reaches_iff_of_meets h
  have hlists : (a.dependencies e).Lists n ↔ TypeExpr.isBuiltin n = false := by
    rw [(a.dependencies_placed_and_lists e).2 n, hr]
  have hdefinition : n ∈ (a.dependencies e).definitions.toList ↔
      TypeExpr.isBuiltin n = false ∧ ∃ body, a.definitions.get? n = some body := by
    rw [mem_definitions_dependencies, hr, Registry.mem_keys_iff]
  have himport : ∀ source, (a.dependencies e).imports.get? n = some source ↔
      TypeExpr.isBuiltin n = false ∧ a.definitions.get? n = none ∧
        a.imports.get? n = some source := by
    intro source
    rw [get?_imports_dependencies, hr, Registry.get?_eq_none_iff]
  have hunresolved : n ∈ (a.dependencies e).unresolved.toList ↔
      TypeExpr.isBuiltin n = false ∧ a.definitions.get? n = none ∧ a.imports.get? n = none := by
    rw [mem_unresolved_dependencies, hr, Registry.get?_eq_none_iff, Registry.get?_eq_none_iff]
  have hlookup := a.lookup?_cases n
  constructor
  · intro hs
    obtain ⟨body, hd, hlook⟩ | ⟨hd, source, hi, hlook⟩ | ⟨hd, hi, hb, hlook⟩ |
      ⟨hd, hi, hb, hlook⟩ := hlookup
    · have hk : n ∈ a.definitions.keys := Registry.mem_keys_iff.mpr ⟨body, hd⟩
      have hb : TypeExpr.isBuiltin n = false := by
        simpa [ShadowsBuiltin, hk] using hs
      constructor <;> simp [hlists, hdefinition, himport, hunresolved, hd, hb, hlook]
    · have hk : n ∈ a.imports.keys := Registry.mem_keys_iff.mpr ⟨source, hi⟩
      have hb : TypeExpr.isBuiltin n = false := by
        simpa [ShadowsBuiltin, hk] using hs
      constructor <;> simp [hlists, hdefinition, himport, hunresolved, hd, hi, hb, hlook]
    · constructor <;> simp [hlists, hdefinition, himport, hunresolved, hb, hlook]
    · constructor <;> simp [hlists, hdefinition, himport, hunresolved, hd, hi, hb, hlook]
  · rintro ⟨hb, hk⟩
    refine ⟨by simp [hlists, hb], ?_⟩
    obtain ⟨body, _, hlook⟩ | ⟨_, source, _, hlook⟩ | ⟨hd, hi, _⟩ | ⟨hd, hi, _⟩ := hlookup
    · exact Or.inl ⟨body, hlook⟩
    · exact Or.inr ⟨source, hlook⟩
    · simp [Registry.mem_keys_iff, hd, hi] at hk
    · simp [Registry.mem_keys_iff, hd, hi] at hk

/-- A name that is met only in the definition of a dependency is taken alike. -/
theorem jsonValue_classifiedAlike :
    (ofChanges .postgresql [.jsonDefinitions]).Meets (.identifier "Json") "JsonValue" ∧
    (ofChanges .postgresql [.jsonDefinitions]).ClassifiedAlike (.identifier "Json") "JsonValue" := by
  have hlisted : "Json" ∈ ((ofChanges .postgresql [.jsonDefinitions]).dependencies
      (.identifier "Json")).definitions.toList :=
    (mem_definitions_dependencies _ _).mpr ⟨.here .identifier (by decide), by decide⟩
  have hmeets : (ofChanges .postgresql [.jsonDefinitions]).Meets (.identifier "Json")
      "JsonValue" :=
    Or.inr ⟨"Json", hlisted, .identifier "JsonValue", by decide, .identifier⟩
  refine ⟨hmeets, (classifiedAlike_unless_shadowed hmeets).1 ?_⟩
  rintro ⟨hb, -⟩
  exact absurd hb (by decide)

/-- An adapter with a definition under the name of a builtin. -/
def shadowingDate : Adapter :=
  (blank .postgresql).setDefinition "Date" (.identifier "string")

theorem validate_shadowingDate : shadowingDate.validate = .ok () := by
  have hambiguous : shadowingDate.ambiguousName? = none := by decide
  have hdangling : shadowingDate.danglingReference? = none := by decide
  have hkeys : shadowingDate.definitions.keys = ["Date"] := by decide
  have hdate : shadowingDate.aliasOf? "Date" = some "string" := by decide
  have hstring : shadowingDate.aliasOf? "string" = none := by decide
  have hcycle : shadowingDate.aliasCycle? = none := by
    rw [aliasCycle?, hkeys, List.find?_eq_none]
    intro n hn
    obtain rfl := List.mem_singleton.mp hn
    simp [repeatsFrom_of_eq_some hdate, repeatsFrom_of_eq_none hstring]
  simp [validate_eq_ok_iff, defect?, hambiguous, hdangling, hcycle]

/-- On a valid adapter a lookup can find a definition that no dependency names. -/
theorem shadowingDate_not_classifiedAlike :
    shadowingDate.validate = .ok () ∧ shadowingDate.Meets (.identifier "Date") "Date" ∧
    shadowingDate.lookup? "Date" = some (.definition (.identifier "string")) ∧
    "Date" ∉ (shadowingDate.dependencies (.identifier "Date")).definitions.toList ∧
    ¬ shadowingDate.ClassifiedAlike (.identifier "Date") "Date" := by
  have hlook : shadowingDate.lookup? "Date" = some (.definition (.identifier "string")) := by
    decide
  have hlisted :
      "Date" ∉ (shadowingDate.dependencies (.identifier "Date")).definitions.toList := by
    intro hn
    have hr := ((shadowingDate.mem_definitions_dependencies _).mp hn).1
    exact absurd hr.isBuiltin_eq_false (by decide)
  refine ⟨validate_shadowingDate, Or.inl .identifier, hlook, hlisted, ?_⟩
  intro h
  exact hlisted (h.definition.mpr ⟨_, hlook⟩)

end Adapter

end DialectTypes
