import DialectTypes.Adapter.Basic

/-!
# What a type needs

A type needs every name that occurs in it, and whatever the definitions of those
names need. The search keeps the expressions that are still to be read. Reading
one records each of its names that is not a builtin, and a name that is recorded
as a definition for the first time adds its definition to what is to be read, so
the search reads every definition at most once.
-/

namespace DialectTypes

/-- The names that a type needs, apart from the builtins. -/
structure Dependencies where
  definitions : NameSet
  imports : Registry ModuleRef
  unresolved : NameSet
deriving DecidableEq

namespace Dependencies

def empty : Dependencies := ⟨.empty, .empty, .empty⟩

/-- What two types need together. -/
def union (d e : Dependencies) : Dependencies :=
  ⟨d.definitions.union e.definitions, d.imports.union e.imports, d.unresolved.union e.unresolved⟩

end Dependencies

namespace Adapter

/-- A search in progress: the expressions still to be read, the next one first,
and the names found so far. -/
structure Search where
  pending : List TypeExpr
  found : Dependencies

namespace Search

/-- The search for what one expression needs, before anything is read. -/
def start (e : TypeExpr) : Search := ⟨[e], .empty⟩

/-- Record one name. -/
def note (a : Adapter) (s : Search) (name : String) : Search :=
  if TypeExpr.isBuiltin name || s.found.definitions.contains name then s
  else
    match a.definitions.get? name with
    | some type =>
      { pending := type :: s.pending
        found := { s.found with definitions := s.found.definitions.add name } }
    | none =>
      match a.imports.get? name with
      | some source =>
        { s with found := { s.found with imports := s.found.imports.insert name source } }
      | none =>
        { s with found := { s.found with unresolved := s.found.unresolved.add name } }

/-- Read the next expression, if there is one. -/
def step? (a : Adapter) (s : Search) : Option Search :=
  match s.pending with
  | [] => none
  | e :: rest => some (e.names.foldl (note a) { s with pending := rest })

theorem step?_eq_none_iff {a : Adapter} {s : Search} : s.step? a = none ↔ s.pending = [] := by
  unfold step?
  split <;> simp_all

/-- How many definitions are not yet recorded. -/
def unread (a : Adapter) (s : Search) : Nat :=
  a.definitions.keys.countP fun k => !s.found.definitions.contains k

/-- A bound on the expressions that are still going to be read. -/
def remaining (a : Adapter) (s : Search) : Nat :=
  s.unread a + s.pending.length

/-- Recording a name leaves as much to read as before: what is added to the
pending expressions is a definition that was not recorded. -/
theorem remaining_note (a : Adapter) (s : Search) (name : String) :
    (s.note a name).remaining a = s.remaining a := by
  unfold note
  split
  · rfl
  · next h =>
    simp only [Bool.or_eq_true, not_or, Bool.not_eq_true] at h
    cases hd : a.definitions.get? name with
    | none => cases hi : a.imports.get? name <;> rfl
    | some type =>
      have hk : name ∈ a.definitions.keys := by
        rw [← Registry.contains_iff, Registry.contains, hd]; rfl
      have := a.definitions.countP_keys_erase (p := fun k => !s.found.definitions.contains k) hk
        (by simp [h.2])
      have same : ∀ k, (!(s.found.definitions.add name).contains k) =
          (decide (k ≠ name) && !s.found.definitions.contains k) := fun k => by
        by_cases hkn : k = name <;> simp [NameSet.contains_add, hkn]
      simp only [remaining, unread, List.length_cons, same]
      omega

theorem remaining_foldl_note (a : Adapter) (names : List String) (s : Search) :
    (names.foldl (note a) s).remaining a = s.remaining a := by
  induction names generalizing s with
  | nil => rfl
  | cons n ns ih => rw [List.foldl_cons, ih, remaining_note]

/-- Each step brings the search closer to its end by one. -/
theorem remaining_step? {a : Adapter} {s t : Search} (h : s.step? a = some t) :
    t.remaining a + 1 = s.remaining a := by
  unfold step? at h
  split at h
  · cases h
  · next e rest hp =>
    obtain rfl := Option.some.inj h
    rw [remaining_foldl_note]
    simp [remaining, unread, hp, Nat.add_assoc]

/-- Read until nothing is pending. -/
def run (a : Adapter) (s : Search) : Dependencies :=
  match _h : s.step? a with
  | none => s.found
  | some t => run a t
termination_by s.remaining a
decreasing_by
  have := remaining_step? _h
  omega

theorem run_of_step?_eq_none {a : Adapter} {s : Search} (h : s.step? a = none) :
    run a s = s.found := by
  rw [run]
  split <;> simp_all

theorem run_of_step?_eq_some {a : Adapter} {s t : Search} (h : s.step? a = some t) :
    run a s = run a t := by
  rw [run]
  split <;> simp_all

end Search

/-- Every definition and import that an expression needs, and every name in it
that nothing explains. -/
def dependencies (a : Adapter) (e : TypeExpr) : Dependencies :=
  Search.run a (Search.start e)

/-- What columns of the listed native types need together. -/
def columnDependencies (a : Adapter) (natives : List String) : Dependencies :=
  natives.foldl (fun d native => d.union (a.dependencies (a.scalarFor native))) .empty

end Adapter

end DialectTypes
