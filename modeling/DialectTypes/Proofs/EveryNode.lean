import DialectTypes.Proofs.Construction

/-!
# Every node is sound

A node is sound if it is not a union without members and not an object in which
a name is repeated. An expression is well formed if all of its nodes are sound,
so the well-formedness of what can be made says something about every depth.
This covers an object to which step after step is applied: a step that fails
leaves it as it was.
-/

namespace DialectTypes

namespace TypeExpr

/-- What has to be true of a node by itself. -/
def Sound : TypeExpr → Prop
  | object ps => (ps.map Prod.fst).Nodup
  | union ms => ms ≠ []
  | _ => True

theorem wellFormed_iff_children {e : TypeExpr} :
    e.WellFormed ↔ e.Sound ∧ ∀ c ∈ e.children, c.WellFormed := by
  cases e with
  | identifier _ => simp [WellFormed, Sound, children]
  | moduleReference _ => simp [WellFormed, Sound, children]
  | object ps =>
      rw [WellFormed, wellFormedProperties_iff, children, List.forall_mem_map]
      rfl
  | union ms => simp [WellFormed, Sound, children, wellFormedMembers_iff]
  | array t => simp [WellFormed, Sound, children]
  | record t => simp [WellFormed, Sound, children]
  | columnType s i u => simp [WellFormed, Sound, children]

/-- An expression is well formed exactly if each of its nodes is sound. -/
theorem wellFormed_iff_nodes (e : TypeExpr) : e.WellFormed ↔ ∀ x ∈ e.nodes, x.Sound := by
  induction e using byChildren with
  | h e ih =>
      have hbelow : (∀ c ∈ e.children, c.WellFormed) ↔
          ∀ x ∈ e.children.flatMap nodes, x.Sound := by
        simp only [List.mem_flatMap, forall_exists_index, and_imp]
        constructor
        · intro h x c hc hx
          exact (ih c hc).mp (h c hc) x hx
        · intro h c hc
          exact (ih c hc).mpr fun x hx => h x c hc hx
      rw [wellFormed_iff_children, nodes_eq_cons, List.forall_mem_cons, hbelow]

end TypeExpr

namespace ObjectExpr

/-- One step in the making of an object. -/
inductive Step where
  | list (properties : List (String × TypeExpr))
  | read (text : String)
  | set (name : String) (type : TypeExpr)

/-- The types that a step is given. -/
def Step.types : Step → List TypeExpr
  | list ps => ps.map Prod.snd
  | read _ => []
  | set _ type => [type]

/-- The object after a step; a step that fails leaves it as it was. -/
def perform (o : ObjectExpr) : Step → ObjectExpr
  | .list ps => (ofList? ps).toOption.getD o
  | .read text => (ofText text).toOption.getD o
  | .set name type => o.set name type

theorem Constructed.perform {o : ObjectExpr} (ho : o.Constructed) {s : Step}
    (hs : ∀ t ∈ s.types, t.Constructed) : (o.perform s).Constructed := by
  cases s with
  | list ps =>
      rw [ObjectExpr.perform]
      cases h : ofList? ps with
      | error _ => exact ho
      | ok o' => exact .ofList (fun p hp => hs p.2 (List.mem_map_of_mem hp)) h
  | read text =>
      rw [ObjectExpr.perform]
      cases h : ofText text with
      | error _ => exact ho
      | ok o' => exact .read h
  | set name type => exact ho.set name (hs type List.mem_cons_self)

/-- What each step keeps, any sequence of steps keeps. -/
theorem Constructed.performAll {o : ObjectExpr} (ho : o.Constructed) {steps : List Step}
    (hs : ∀ s ∈ steps, ∀ t ∈ s.types, t.Constructed) :
    (steps.foldl ObjectExpr.perform o).Constructed := by
  induction steps generalizing o with
  | nil => exact ho
  | cons s steps ih =>
      rw [List.forall_mem_cons] at hs
      exact ih (ho.perform hs.1) hs.2

end ObjectExpr

/-- In whatever can be made, stored in an adapter or left by a sequence of steps, every
union has a member and every object distinct property names, at every depth. -/
theorem every_node_sound :
    (∀ e : TypeExpr, e.Constructed → ∀ x ∈ e.nodes, x.Sound) ∧
    (∀ a : Adapter, a.Constructed → ∀ t, a.Stores t → ∀ x ∈ t.nodes, x.Sound) ∧
    ∀ o : ObjectExpr, o.Constructed → ∀ steps : List ObjectExpr.Step,
      (∀ s ∈ steps, ∀ t ∈ s.types, t.Constructed) →
      ∀ x ∈ (steps.foldl ObjectExpr.perform o).toTypeExpr.nodes, x.Sound := by
  refine ⟨?_, ?_, ?_⟩
  · intro e he
    exact e.wellFormed_iff_nodes.mp he.wellFormed
  · intro a ha t ht
    exact t.wellFormed_iff_nodes.mp (ha.wellFormed.stores ht)
  · intro o ho steps hs
    exact (TypeExpr.wellFormed_iff_nodes _).mp (ho.performAll hs).wellFormed

/-- An object is read from sequences, where an array is of what the number 0 tells. A repeated
name and empty unions on the way, one of them told by its number, leave it as it was. -/
theorem failed_steps_sound :
    let steps : List ObjectExpr.Step :=
      [.read "[[[\"id\",[\"array\",[0,\"string\"]]]]]",
        .list [("key", .identifier "string"), ("key", .identifier "number")],
        .read ("\x7b\"properties\":[\x7b\"name\":\"id\",\"type\":" ++
          "\x7b\"kind\":\"union\",\"members\":[]\x7d\x7d]\x7d"),
        .read "[[[\"id\",[\"array\",[3,[]]]]]]",
        .set "at" (.array (.identifier "Date"))]
    (steps.foldl ObjectExpr.perform .empty).properties =
      [("id", .array (.identifier "string")), ("at", .array (.identifier "Date"))] ∧
    ∀ x ∈ (steps.foldl ObjectExpr.perform .empty).toTypeExpr.nodes, x.Sound := by
  intro steps
  constructor
  · simp only [steps]
    decide +kernel
  · apply every_node_sound.2.2 .empty .empty steps
    intro s hs t ht
    have htypes : ∀ t ∈ steps.flatMap ObjectExpr.Step.types, t.WellFormed := by
      simp [steps, ObjectExpr.Step.types, TypeExpr.WellFormed]
    exact TypeExpr.constructed_of_wellFormed (htypes t (List.mem_flatMap.mpr ⟨s, hs, ht⟩))

end DialectTypes
