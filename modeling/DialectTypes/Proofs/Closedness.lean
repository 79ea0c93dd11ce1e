import DialectTypes.Proofs.ChangeLog
import DialectTypes.Proofs.Dependencies
import DialectTypes.Proofs.Resolution
import Mathlib.Data.List.Sort
import Mathlib.Tactic.TFAE

/-!
# What needs nothing from outside

A closed expression refers to builtins only. It reaches no name, whatever an adapter
has under the names of builtins, and so it has no dependencies on any adapter. In
turn an expression without dependencies on one adapter is closed, since the names that
occur in it are looked at before any definition is.

A library is a list of definitions that refer to one another and to builtins. On an
adapter that holds them, expressions over their names reach those names only, whatever
else the adapter has. The definitions of a JSON value are such a library, and once a
log of changes puts them into an adapter only a later definition under one of their
names can change them.
-/

namespace DialectTypes

namespace NameSet

/-- A set is listed as the ascending list of its names. -/
theorem toList_eq_iff {s : NameSet} {names : List String} (h : names.Pairwise (· < ·)) :
    s.toList = names ↔ ∀ n, n ∈ s.toList ↔ n ∈ names := by
  constructor
  · rintro rfl n
    rfl
  · exact s.keys_ascending.eq_of_mem_iff h

end NameSet

namespace Adapter

section Closed

variable {a : Adapter} {e : TypeExpr}

theorem dependencies_eq_empty_iff : a.dependencies e = .empty ↔ ∀ n, ¬ a.Reaches e n := by
  obtain ⟨hplaced, hlists⟩ := a.dependencies_placed_and_lists e
  constructor
  · intro h n hn
    rw [← hlists, h] at hn
    exact Dependencies.not_lists_empty n hn
  · intro h
    apply hplaced.ext (Dependencies.placed_empty a)
    intro n
    rw [hlists]
    exact iff_of_false (h n) (Dependencies.not_lists_empty n)

/-- An expression is closed exactly if it leads to no name, on whichever adapter. -/
theorem isClosed_iff_not_reaches (a : Adapter) :
    e.isClosed = true ↔ ∀ n, ¬ a.Reaches e n := by
  rw [TypeExpr.isClosed_iff]
  constructor
  · intro h n hn
    induction hn with
    | here ho hb =>
        have hbuiltin := h _ ((TypeExpr.mem_names_iff e).mpr ho)
        simp [TypeExpr.isBuiltin, hbuiltin] at hb
    | through _ _ _ _ ih => exact ih
  · intro h n hn
    by_contra hb
    have ho : e.Occurs n := (TypeExpr.mem_names_iff e).mp hn
    exact h n (.here ho (by simpa [TypeExpr.isBuiltin] using hb))

/-- An expression is closed exactly if it needs nothing on any adapter, for which it is
enough that it needs nothing on one adapter, such as one with empty registries. -/
theorem closed_iff_needs_nothing (e : TypeExpr) (b : Adapter) :
    [e.isClosed = true, ∀ a : Adapter, a.dependencies e = .empty,
      b.dependencies e = .empty].TFAE := by
  tfae_have 1 → 2 := by
    intro h a
    exact dependencies_eq_empty_iff.mpr ((isClosed_iff_not_reaches a).mp h)
  tfae_have 2 → 3 := fun h => h b
  tfae_have 3 → 1 := by
    intro h
    exact (isClosed_iff_not_reaches b).mpr (dependencies_eq_empty_iff.mp h)
  tfae_finish

end Closed

section Libraries

/-- The adapter has the definitions of a library, which refer to one another and to
builtins only. -/
structure HasLibrary (a : Adapter) (library : List (String × TypeExpr)) : Prop where
  defined : ∀ d ∈ library, a.definitions.get? d.1 = some d.2
  closed : ∀ d ∈ library, ∀ n ∈ d.2.names,
    n ∈ library.map Prod.fst ∨ n ∈ TypeExpr.builtins

variable {a : Adapter} {e : TypeExpr} {library : List (String × TypeExpr)} {n : String}

/-- A name of a library leads to names of the library only. -/
theorem HasLibrary.mem_of_reaches (hl : a.HasLibrary library) {name : String}
    (hname : name ∈ library.map Prod.fst) (h : a.Reaches (.identifier name) n) :
    n ∈ library.map Prod.fst := by
  induction h with
  | here ho _ =>
      cases ho
      exact hname
  | @through via n body _ hd ho hb ih =>
      obtain ⟨d, hd', rfl⟩ := List.mem_map.mp ih
      obtain rfl : d.2 = body := Option.some.inj ((hl.defined d hd').symm.trans hd)
      apply (hl.closed d hd' n ((TypeExpr.mem_names_iff _).mpr ho)).resolve_right
      intro hbuiltin
      simp [TypeExpr.isBuiltin, hbuiltin] at hb

theorem HasLibrary.mem_keys (hl : a.HasLibrary library) (hn : n ∈ library.map Prod.fst) :
    n ∈ a.definitions.keys := by
  obtain ⟨d, hd, rfl⟩ := List.mem_map.mp hn
  exact Registry.mem_keys_iff.mpr ⟨d.2, hl.defined d hd⟩

/-- What leads to definitions only needs no imports, and leaves no name unresolved. -/
theorem dependencies_of_reaches_mem_keys (h : ∀ n, a.Reaches e n → n ∈ a.definitions.keys) :
    (a.dependencies e).imports = .empty ∧ (a.dependencies e).unresolved = .empty := by
  constructor
  · ext n source
    rw [get?_imports_dependencies]
    apply iff_of_false
    · rintro ⟨hr, hk, _⟩
      exact hk (h n hr)
    · simp
  · apply NameSet.ext_toList
    intro n
    rw [mem_unresolved_dependencies]
    apply iff_of_false
    · rintro ⟨hr, hk, _⟩
      exact hk (h n hr)
    · exact List.not_mem_nil

/-- A name of a library that leads to all of its names needs the library and nothing else. -/
theorem HasLibrary.dependencies (hl : a.HasLibrary library) {name : String}
    (hname : name ∈ library.map Prod.fst)
    (hascending : (library.map Prod.fst).Pairwise (· < ·))
    (hall : ∀ n ∈ library.map Prod.fst, a.Reaches (.identifier name) n) :
    (a.dependencies (.identifier name)).definitions.toList = library.map Prod.fst ∧
    (a.dependencies (.identifier name)).imports = .empty ∧
    (a.dependencies (.identifier name)).unresolved = .empty := by
  constructor
  · apply (NameSet.toList_eq_iff hascending).mpr
    intro n
    rw [mem_definitions_dependencies]
    constructor
    · rintro ⟨hr, _⟩
      exact hl.mem_of_reaches hname hr
    · intro hn
      exact ⟨hall n hn, hl.mem_keys hn⟩
  · apply dependencies_of_reaches_mem_keys
    intro n hr
    exact hl.mem_keys (hl.mem_of_reaches hname hr)

end Libraries

section JsonLibrary

open TypeExpr

variable {a : Adapter} {log : List Change}

/-- Only a definition under the name itself and the JSON definitions write to the
definition of a name. -/
theorem definition_mem_slots_iff {change : Change} {n : String} :
    .entry .definitions n ∈ change.slots ↔
      (∃ type, change = .definition n type) ∨
        change = .jsonDefinitions ∧ n ∈ jsonDefinitions.map Prod.fst := by
  cases change <;> simp [Change.slots, Change.writes, Write.slot, eq_comm]

/-- The change that puts in the JSON library does so on every adapter. -/
theorem hasLibrary_apply_jsonDefinitions (a : Adapter) :
    (a.apply .jsonDefinitions).HasLibrary jsonDefinitions where
  defined d hd := by
    have hslots : (Change.jsonDefinitions.writes.map Write.slot).Nodup := by decide
    have hw : .definition d.1 d.2 ∈ Change.jsonDefinitions.writes :=
      List.mem_map_of_mem (f := fun d => Write.definition d.1 d.2) hd
    rw [apply_eq_foldl_write]
    exact holds_foldl_write.mpr (Or.inl (lastWrite_of_nodup hslots hw))
  closed := jsonDefinitions_closed

/-- A change that defines none of its names leaves the JSON library as it is. -/
theorem hasLibrary_apply {change : Change} (ha : a.HasLibrary jsonDefinitions)
    (hchange : ∀ n type, change = .definition n type → n ∉ jsonDefinitions.map Prod.fst) :
    (a.apply change).HasLibrary jsonDefinitions := by
  by_cases hjson : change = .jsonDefinitions
  · rw [hjson]
    exact hasLibrary_apply_jsonDefinitions a
  · refine ⟨?_, ha.closed⟩
    intro d hd
    have hslot : .entry .definitions d.1 ∉ change.slots := by
      rw [definition_mem_slots_iff]
      rintro (⟨type, h⟩ | ⟨h, _⟩)
      · exact hchange d.1 type h (List.mem_map_of_mem hd)
      · exact hjson h
    have hheld : a.Holds (.definition d.1 d.2) := ha.defined d hd
    rw [Change.slots] at hslot
    rw [apply_eq_foldl_write]
    exact holds_foldl_write.mpr (Or.inr ⟨hslot, hheld⟩)

/-- So does a log of such changes. -/
theorem hasLibrary_foldl_apply (ha : a.HasLibrary jsonDefinitions)
    (hlog : ∀ n type, .definition n type ∈ log → n ∉ jsonDefinitions.map Prod.fst) :
    (log.foldl apply a).HasLibrary jsonDefinitions := by
  induction log generalizing a with
  | nil => exact ha
  | cons change log ih =>
      rw [List.foldl_cons]
      apply ih
      · apply hasLibrary_apply ha
        rintro n type rfl
        exact hlog n type List.mem_cons_self
      · intro n type h
        exact hlog n type (List.mem_cons_of_mem _ h)

/-- The type of a JSON value that is an array, an object or a primitive. -/
def jsonValue : TypeExpr :=
  .union [.identifier "JsonArray", .identifier "JsonObject", .identifier "JsonPrimitive"]

section

variable (hl : a.HasLibrary jsonDefinitions)

include hl

theorem HasLibrary.get?_json : a.definitions.get? "Json" = some (.identifier "JsonValue") :=
  hl.defined ("Json", .identifier "JsonValue") (by simp [jsonDefinitions])

theorem HasLibrary.get?_jsonValue : a.definitions.get? "JsonValue" = some jsonValue :=
  hl.defined ("JsonValue", jsonValue) (by simp [jsonDefinitions, jsonValue])

/-- One hop from the alias comes to the type of a JSON value, where the chain ends. -/
theorem HasLibrary.resolve_json : a.resolve (.identifier "Json") = jsonValue := by
  apply resolve_of_chainEnds
  refine ⟨⟨2, .next hl.get?_json (.next hl.get?_jsonValue (.here _))⟩, ?_⟩
  rintro ⟨n, _, h⟩
  cases h

/-- The alias leads to the type of a JSON value, and that to the three shapes of one. -/
theorem HasLibrary.reaches_json :
    ∀ n ∈ jsonDefinitions.map Prod.fst, a.Reaches (.identifier "Json") n := by
  have hjson : a.Reaches (.identifier "Json") "Json" := .here .identifier (by decide)
  have hvalue : a.Reaches (.identifier "Json") "JsonValue" :=
    .through hjson hl.get?_json .identifier (by decide)
  have hshape : ∀ n ∈ jsonValue.names, isBuiltin n = false →
      a.Reaches (.identifier "Json") n := by
    intro n hn hb
    exact .through hvalue hl.get?_jsonValue ((mem_names_iff _).mp hn) hb
  intro n hn
  have hcases : n = "Json" ∨ n = "JsonValue" ∨ n ∈ jsonValue.names ∧ isBuiltin n = false := by
    revert n
    decide
  rcases hcases with rfl | rfl | ⟨hn, hb⟩
  · exact hjson
  · exact hvalue
  · exact hshape n hn hb

end

/-- Once a log has put in the JSON library, and defines none of its names after that, the
adapter has the library, and the JSON type resolves to the type of a JSON value and needs
the library and nothing else, whatever is in the adapter before and is added later. -/
theorem json_library_intact {dialect : Dialect} {before after : List Change}
    (hlog : log = before ++ .jsonDefinitions :: after)
    (hafter : ∀ n type, .definition n type ∈ after → n ∉ jsonDefinitions.map Prod.fst) :
    (build dialect log).value.HasLibrary jsonDefinitions ∧
    (build dialect log).value.resolve (.identifier "Json") = jsonValue ∧
    ((build dialect log).value.dependencies (.identifier "Json")).definitions.toList =
      ["Json", "JsonArray", "JsonObject", "JsonPrimitive", "JsonValue"] ∧
    ((build dialect log).value.dependencies (.identifier "Json")).imports = .empty ∧
    ((build dialect log).value.dependencies (.identifier "Json")).unresolved = .empty := by
  have hbuilt : (build dialect log).value =
      after.foldl apply ((ofChanges dialect before).apply .jsonDefinitions) := by
    rw [hlog]
    exact List.foldl_append
  have hl : (build dialect log).value.HasLibrary jsonDefinitions := by
    rw [hbuilt]
    exact hasLibrary_foldl_apply (hasLibrary_apply_jsonDefinitions _) hafter
  exact ⟨hl, hl.resolve_json, hl.dependencies (by decide) (by decide) hl.reaches_json⟩

/-- Changes that write over the names of the JSON library and import one of them. -/
def crowdingBefore : List Change :=
  [.imported "Json" "./json", .definition "JsonValue" (.identifier "string"),
    .definition "JsonArray" (.identifier "Json")]

/-- Changes that import another of the names and refer to the library. -/
def crowdingAfter : List Change :=
  [.imported "JsonObject" "./object", .definition "Rows" (.array (.identifier "JsonValue")),
    .scalarsAs ["json", "jsonb"] "Json"]

def crowdedLog : List Change :=
  crowdingBefore ++ .jsonDefinitions :: crowdingAfter

/-- Names that are written over before and imported before and after do no harm. -/
theorem crowdedLog_json_intact :
    (∀ n type, .definition n type ∈ crowdingAfter → n ∉ jsonDefinitions.map Prod.fst) ∧
    (build .postgresql crowdedLog).value.HasLibrary jsonDefinitions ∧
    (build .postgresql crowdedLog).value.resolve (.identifier "Json") = jsonValue ∧
    ((build .postgresql crowdedLog).value.dependencies (.identifier "Json")).definitions.toList =
      ["Json", "JsonArray", "JsonObject", "JsonPrimitive", "JsonValue"] ∧
    ((build .postgresql crowdedLog).value.dependencies (.identifier "Json")).imports = .empty ∧
    ((build .postgresql crowdedLog).value.dependencies (.identifier "Json")).unresolved =
      .empty := by
  have hafter : ∀ n type, .definition n type ∈ crowdingAfter →
      n ∉ jsonDefinitions.map Prod.fst := by
    intro n type h
    obtain ⟨rfl, -⟩ : n = "Rows" ∧ type = .array (.identifier "JsonValue") := by
      simpa [crowdingAfter] using h
    decide
  have hlog : crowdedLog = crowdingBefore ++ .jsonDefinitions :: crowdingAfter := rfl
  exact ⟨hafter, json_library_intact hlog hafter⟩

end JsonLibrary

end Adapter

end DialectTypes
