import DialectTypes.Proofs.Nesting
import DialectTypes.Proofs.ObjectOrder
import DialectTypes.Proofs.Occurrence
import DialectTypes.Proofs.RoundTrip
import Mathlib.Data.List.Sort

/-!
# The walk through an expression and its text

The nodes of an expression are listed by one recursion and its text is written by
another, and both go through the same tree. The objects of the text that have a
kind, from left to right, are what is written for the nodes, in the order of the
walk. So the kinds and the names in the text are those that the walk meets.

What that order is can be said without the walk. A node stands at a position, which
is the list of the places that are taken on the way down to it. The walk lists what
stands at each position once, in lexicographic order of the positions: a parent
comes before what is below it, and what is below one child before what is below the
next.
-/

namespace DialectTypes

open Json (Value)

namespace TypeExpr

section Positions

/-- The node stands at the position. Properties and members have their numbers as
places, and the select, insert and update type of a column type have 0, 1 and 2. -/
inductive NodeAt : TypeExpr → List Nat → TypeExpr → Prop where
  | root (e : TypeExpr) : NodeAt e [] e
  | property {ps : List (String × TypeExpr)} {i : Nat} {name : String} {t x : TypeExpr}
      {p : List Nat} (hi : ps[i]? = some (name, t)) (h : NodeAt t p x) :
      NodeAt (object ps) (i :: p) x
  | member {ms : List TypeExpr} {i : Nat} {m x : TypeExpr} {p : List Nat}
      (hi : ms[i]? = some m) (h : NodeAt m p x) : NodeAt (union ms) (i :: p) x
  | element {t x : TypeExpr} {p : List Nat} (h : NodeAt t p x) : NodeAt (array t) (0 :: p) x
  | value {t x : TypeExpr} {p : List Nat} (h : NodeAt t p x) : NodeAt (record t) (0 :: p) x
  | select {s i u x : TypeExpr} {p : List Nat} (h : NodeAt s p x) :
      NodeAt (columnType s i u) (0 :: p) x
  | insert {s i u x : TypeExpr} {p : List Nat} (h : NodeAt i p x) :
      NodeAt (columnType s i u) (1 :: p) x
  | update {s i u x : TypeExpr} {p : List Nat} (h : NodeAt u p x) :
      NodeAt (columnType s i u) (2 :: p) x

/-- The first place leads to a child of the root, and the others lead on from there. -/
theorem nodeAt_cons_iff {e x : TypeExpr} {i : Nat} {p : List Nat} :
    e.NodeAt (i :: p) x ↔ ∃ c, e.children[i]? = some c ∧ c.NodeAt p x := by
  constructor
  · intro h
    cases h with
    | property hi h => exact ⟨_, by simp [children, hi], h⟩
    | member hi h => exact ⟨_, hi, h⟩
    | element h => exact ⟨_, rfl, h⟩
    | value h => exact ⟨_, rfl, h⟩
    | select h => exact ⟨_, rfl, h⟩
    | insert h => exact ⟨_, rfl, h⟩
    | update h => exact ⟨_, rfl, h⟩
  · rintro ⟨c, hc, h⟩
    cases e with
    | identifier _ => cases hc
    | moduleReference _ => cases hc
    | object ps =>
        rw [children, List.getElem?_map] at hc
        obtain ⟨⟨name, t⟩, hi, rfl⟩ := Option.map_eq_some_iff.mp hc
        exact .property hi h
    | union ms => exact .member hc h
    | array t =>
        match i, hc with
        | 0, rfl => exact .element h
    | record t =>
        match i, hc with
        | 0, rfl => exact .value h
    | columnType s j u =>
        match i, hc with
        | 0, rfl => exact .select h
        | 1, rfl => exact .insert h
        | 2, rfl => exact .update h

/-- The node stands at the position below expressions that have the places from the
first one on. -/
def StandsBelow (first : Nat) (cs : List TypeExpr) (q : List Nat) (x : TypeExpr) : Prop :=
  ∃ i c p, cs[i]? = some c ∧ q = (first + i) :: p ∧ c.NodeAt p x

theorem standsBelow_cons_iff {first : Nat} {c x : TypeExpr} {cs : List TypeExpr}
    {q : List Nat} : StandsBelow first (c :: cs) q x ↔
      (∃ p, q = first :: p ∧ c.NodeAt p x) ∨ StandsBelow (first + 1) cs q x := by
  have hplace : ∀ i, first + 1 + i = first + (i + 1) := fun i => Nat.add_right_comm first 1 i
  constructor
  · rintro ⟨i, d, p, hd, rfl, h⟩
    cases i with
    | zero =>
        obtain rfl : c = d := Option.some.inj hd
        exact Or.inl ⟨p, rfl, h⟩
    | succ i => exact Or.inr ⟨i, d, p, hd, by rw [hplace], h⟩
  · rintro (⟨p, rfl, h⟩ | ⟨i, d, p, hd, rfl, h⟩)
    · exact ⟨0, c, p, rfl, rfl, h⟩
    · exact ⟨i + 1, d, p, hd, by rw [hplace], h⟩

/-- What stands in an expression is its root or stands below it. -/
theorem nodeAt_iff {e x : TypeExpr} {q : List Nat} :
    e.NodeAt q x ↔ q = [] ∧ x = e ∨ StandsBelow 0 e.children q x := by
  constructor
  · intro h
    cases q with
    | nil =>
        cases h
        exact Or.inl ⟨rfl, rfl⟩
    | cons i p =>
        obtain ⟨c, hc, h⟩ := nodeAt_cons_iff.mp h
        exact Or.inr ⟨i, c, p, hc, by rw [Nat.zero_add], h⟩
  · rintro (⟨rfl, rfl⟩ | ⟨i, c, p, hc, rfl, h⟩)
    · exact .root x
    · rw [Nat.zero_add]
      exact nodeAt_cons_iff.mpr ⟨c, hc, h⟩

/-- The list has what stands at each of the positions, in lexicographic order of the
positions. -/
def ListsInOrder (At : List Nat → TypeExpr → Prop) (xs : List TypeExpr) : Prop :=
  ∃ placed : List (List Nat × TypeExpr),
    (∀ p x, (p, x) ∈ placed ↔ At p x) ∧
    placed.Pairwise (fun a b => List.Lex (· < ·) a.1 b.1) ∧
    placed.map Prod.snd = xs

variable {At At' : List Nat → TypeExpr → Prop} {xs ys : List TypeExpr}

theorem ListsInOrder.unique (h : ListsInOrder At xs) (h' : ListsInOrder At ys) : xs = ys := by
  obtain ⟨placed, hmem, hascending, rfl⟩ := h
  obtain ⟨placed', hmem', hascending', rfl⟩ := h'
  have hplaced : placed = placed' := by
    apply hascending.eq_of_mem_iff hascending'
    rintro ⟨p, x⟩
    rw [hmem, hmem']
  rw [hplaced]

theorem ListsInOrder.congr (h : ListsInOrder At xs) (hat : ∀ p x, At p x ↔ At' p x) :
    ListsInOrder At' xs := by
  obtain ⟨placed, hmem, hrest⟩ := h
  exact ⟨placed, fun p x => (hmem p x).trans (hat p x), hrest⟩

theorem listsInOrder_nil (h : ∀ p x, ¬ At p x) : ListsInOrder At [] :=
  ⟨[], fun p x => iff_of_false List.not_mem_nil (h p x), List.Pairwise.nil, rfl⟩

/-- A root comes before everything below it. -/
theorem ListsInOrder.root (h : ListsInOrder At xs) (e : TypeExpr) (hat : ∀ x, ¬ At [] x) :
    ListsInOrder (fun p x => p = [] ∧ x = e ∨ At p x) (e :: xs) := by
  obtain ⟨placed, hmem, hascending, rfl⟩ := h
  refine ⟨([], e) :: placed, ?_, List.pairwise_cons.mpr ⟨?_, hascending⟩, rfl⟩
  · intro p x
    rw [List.mem_cons, hmem, Prod.mk.injEq]
  · rintro ⟨p, x⟩ hp
    cases p with
    | nil => exact absurd ((hmem [] x).mp hp) (hat x)
    | cons i p => exact .nil

/-- Positions keep their order if the same place is taken before all of them. -/
theorem ListsInOrder.below (h : ListsInOrder At xs) (i : Nat) :
    ListsInOrder (fun q x => ∃ p, q = i :: p ∧ At p x) xs := by
  obtain ⟨placed, hmem, hascending, rfl⟩ := h
  refine ⟨placed.map fun a => (i :: a.1, a.2), ?_, ?_, by simp⟩
  · intro q x
    simp only [List.mem_map, Prod.mk.injEq, Prod.exists, hmem]
    constructor
    · rintro ⟨p, y, hp, rfl, rfl⟩
      exact ⟨p, rfl, hp⟩
    · rintro ⟨p, rfl, hp⟩
      exact ⟨p, x, hp, rfl, rfl⟩
  · exact hascending.map _ fun _ _ => .cons

theorem ListsInOrder.append (h : ListsInOrder At xs) (h' : ListsInOrder At' ys)
    (hlt : ∀ p x q y, At p x → At' q y → List.Lex (· < ·) p q) :
    ListsInOrder (fun p x => At p x ∨ At' p x) (xs ++ ys) := by
  obtain ⟨placed, hmem, hascending, rfl⟩ := h
  obtain ⟨placed', hmem', hascending', rfl⟩ := h'
  refine ⟨placed ++ placed', ?_, List.pairwise_append.mpr ⟨hascending, hascending', ?_⟩,
    List.map_append⟩
  · intro p x
    rw [List.mem_append, hmem, hmem']
  · rintro ⟨p, x⟩ hp ⟨q, y⟩ hq
    exact hlt p x q y ((hmem p x).mp hp) ((hmem' q y).mp hq)

theorem listsInOrder_flatMap {cs : List TypeExpr}
    (h : ∀ c ∈ cs, ListsInOrder c.NodeAt c.nodes) (first : Nat) :
    ListsInOrder (StandsBelow first cs) (cs.flatMap nodes) := by
  induction cs generalizing first with
  | nil =>
      apply listsInOrder_nil
      rintro q x ⟨i, c, p, hc, _⟩
      cases hc
  | cons c cs ih =>
      rw [List.forall_mem_cons] at h
      refine ((h.1.below first).append (ih h.2 (first + 1)) ?_).congr ?_
      · rintro _ x _ y ⟨p, rfl, _⟩ ⟨i, d, q, _, rfl, _⟩
        exact .rel (by omega)
      · intro q x
        exact standsBelow_cons_iff.symm

/-- The walk lists the nodes at all positions, in the order of the positions. -/
theorem listsInOrder_nodes (e : TypeExpr) : ListsInOrder e.NodeAt e.nodes := by
  induction e using byChildren with
  | h e ih =>
      rw [nodes_eq_cons]
      refine ((listsInOrder_flatMap ih 0).root e ?_).congr ?_
      · rintro x ⟨i, c, p, _, ⟨⟩, _⟩
      · intro q x
        exact nodeAt_iff.symm

end Positions

section Text

/-- Whether a document has a kind, as what is written for a node has and what is written
for a property has not. -/
def tellsKind (d : Document) : Bool :=
  d.strings "kind" ≠ []

/-- The objects of a text that have a kind, from left to right. -/
def nodeObjects (text : String) : List Document :=
  (Json.objects text).filter tellsKind

/-- The kinds in a text, from left to right. -/
def kindsIn (text : String) : List String :=
  (nodeObjects text).flatMap fun d => d.strings "kind"

/-- The names that a document has if it is an identifier. -/
def identifierNames (d : Document) : List String :=
  if Kind.identifier.tag ∈ d.strings "kind" then d.strings "name" else []

/-- The names of the identifiers in a text, from left to right. -/
def namesIn (text : String) : List String :=
  (nodeObjects text).flatMap identifierNames

/-- The tables in a document that have a kind, each before those within it. -/
def nodeTables (d : Document) : List Document :=
  d.tables.filter tellsKind

theorem nodeTables_array (vs : List Value) :
    nodeTables (Value.array vs).document = vs.flatMap fun v => nodeTables v.document := by
  simp only [nodeTables, Value.document, Document.tables, Document.itemTables_eq,
    Value.itemDocuments_eq, List.flatMap_map, List.filter_flatMap]

theorem nodeTables_object (ms : List (String × Value)) :
    nodeTables (Value.object ms).document =
      [(Value.object ms).document].filter tellsKind ++
        ms.flatMap fun m => nodeTables m.2.document := by
  have htables : (Value.object ms).document.tables =
      [(Value.object ms).document] ++ ms.flatMap fun m => m.2.document.tables := by
    simp [Value.document, Document.tables, Document.memberTables_eq, Value.memberDocuments_eq,
      List.flatMap_map]
  rw [nodeTables, htables, List.filter_append, List.filter_flatMap]
  rfl

theorem nodeTables_tagged (k : Kind) (parts : List (String × Value)) :
    nodeTables (tagged k parts).document =
      (tagged k parts).document :: parts.flatMap fun p => nodeTables p.2.document :=
  nodeTables_object _

/-- A property has no kind, only its type has. -/
theorem nodeTables_property (n : String) (v : Value) :
    nodeTables (Value.object [("name", .string n), ("type", v)]).document =
      nodeTables v.document := by
  rw [nodeTables_object]
  exact List.append_nil _

/-- What is written for an expression has a kind, and below it stands what is written for
the children of the root. -/
theorem nodeTables_toJson (e : TypeExpr) :
    nodeTables e.toJson.document =
      e.toJson.document :: e.children.flatMap fun c => nodeTables c.toJson.document := by
  cases e with
  | identifier _ => rfl
  | moduleReference _ => rfl
  | object ps =>
      simp [toJson, nodeTables_tagged, nodeTables_array, nodeTables_property,
        propertiesToJson_eq, children, List.flatMap_map]
  | union ms =>
      simp [toJson, nodeTables_tagged, nodeTables_array, membersToJson_eq, children,
        List.flatMap_map]
  | array t => simp [toJson, nodeTables_tagged, children]
  | record t => simp [toJson, nodeTables_tagged, children]
  | columnType s i u => simp [toJson, nodeTables_tagged, children]

theorem nodeTables_eq_map_nodes (e : TypeExpr) :
    nodeTables e.toJson.document = e.nodes.map fun x => x.toJson.document := by
  induction e using byChildren with
  | h e ih =>
      rw [nodeTables_toJson, nodes_eq_cons, List.map_cons, List.map_flatMap]
      exact congrArg _ (List.flatMap_congr ih)

/-- The objects that have a kind are what is written for the nodes that the walk meets. -/
theorem nodeObjects_text (e : TypeExpr) :
    nodeObjects e.text = e.nodes.map fun x => x.toJson.document := by
  rw [nodeObjects, text, Json.objects_of_denotes (Value.denotes_text _)]
  exact nodeTables_eq_map_nodes e

theorem strings_kind (e : TypeExpr) : e.toJson.document.strings "kind" = [e.kind.tag] := by
  cases e <;> rfl

theorem kindsIn_text (e : TypeExpr) : kindsIn e.text = e.nodes.map fun x => x.kind.tag := by
  rw [kindsIn, nodeObjects_text, List.flatMap_map, List.map_eq_flatMap]
  simp only [strings_kind]

/-- A property that is called `kind` has no kind. -/
example : kindsIn (object [("kind", identifier "object")]).text = ["object", "identifier"] := by
  rw [kindsIn_text]
  rfl

theorem identifierNames_toJson (e : TypeExpr) :
    identifierNames e.toJson.document = e.name?.toList := by
  cases e <;> rfl

theorem namesIn_text (e : TypeExpr) : namesIn e.text = e.names := by
  rw [namesIn, nodeObjects_text, List.flatMap_map, names, List.filterMap_eq_flatMap_toList]
  simp only [identifierNames_toJson]

end Text

/-- The walk and the text have the same kinds and the same names in the same order. The
objects that have a kind are read as the texts of the nodes that are met, one by one, and
the walk is the only list that has what stands at each position once, in the order of the
positions. -/
theorem walk_agrees_with_text (e : TypeExpr) :
    (e.nodes.map fun x => x.kind.tag) = kindsIn e.text ∧
    e.names = namesIn e.text ∧
    (e.nodes.map fun x => (Json.source x.text).document) = nodeObjects e.text ∧
    ∀ xs : List TypeExpr, ListsInOrder e.NodeAt xs ↔ xs = e.nodes := by
  refine ⟨e.kindsIn_text.symm, e.namesIn_text.symm, ?_, ?_⟩
  · rw [nodeObjects_text]
    simp only [text, Value.source_text]
  · intro xs
    constructor
    · intro h
      exact h.unique e.listsInOrder_nodes
    · rintro rfl
      exact e.listsInOrder_nodes

end TypeExpr

end DialectTypes
