import DialectTypes.Adapter.Json
import DialectTypes.Proofs.Occurrence
import DialectTypes.Proofs.Readers

/-!
# Every construction is well formed

An expression can be built by the functions for it, read from a text, taken from
another expression or stored in an adapter. None of these ways leads to a union
without members or to an object with a repeated property name, at any depth.
-/

namespace DialectTypes

namespace TypeExpr

theorem wellFormed_column {s : TypeExpr} {i u : Option TypeExpr} (hs : s.WellFormed)
    (hi : ∀ t ∈ i, t.WellFormed) (hu : ∀ t ∈ u, t.WellFormed) : (column s i u).WellFormed := by
  have hinsert : (i.getD s).WellFormed := by
    cases i with
    | none => exact hs
    | some t => exact hi t rfl
  refine ⟨hs, hinsert, ?_⟩
  cases u with
  | none => exact hinsert
  | some t => exact hu t rfl

theorem wellFormed_of_union?_eq_ok {ms : List TypeExpr} {e : TypeExpr}
    (hm : ∀ m ∈ ms, m.WellFormed) (h : union? ms = .ok e) : e.WellFormed := by
  obtain ⟨hne, rfl⟩ := union?_eq_ok_iff.mp h
  exact ⟨hne, wellFormedMembers_iff.mpr hm⟩

theorem object?_eq_ok_iff {ps : List (String × TypeExpr)} {e : TypeExpr} :
    object? ps = .ok e ↔ (ps.map Prod.fst).Nodup ∧ e = .object ps := by
  constructor
  · intro h
    cases ho : ObjectExpr.ofList? ps with
    | error _ =>
        rw [object?, ho] at h
        cases h
    | ok o =>
        obtain ⟨hnd, rfl⟩ := ObjectExpr.ofList?_eq_ok_iff.mp ho
        rw [object?, ho] at h
        cases h
        exact ⟨hnd, rfl⟩
  · rintro ⟨hnd, rfl⟩
    rw [object?, ObjectExpr.ofList?_eq_ok_iff.mpr ⟨hnd, rfl⟩]
    rfl

theorem WellFormed.child {e c : TypeExpr} (h : e.WellFormed) (hc : c ∈ e.children) :
    c.WellFormed := by
  cases e with
  | identifier _ => simp [children] at hc
  | moduleReference _ => simp [children] at hc
  | object ps =>
      obtain ⟨p, hp, rfl⟩ := List.mem_map.mp hc
      exact wellFormedProperties_iff.mp h.2 p hp
  | union ms => exact wellFormedMembers_iff.mp h.2 c hc
  | array t =>
      obtain rfl : c = t := by simpa [children] using hc
      exact h
  | record t =>
      obtain rfl : c = t := by simpa [children] using hc
      exact h
  | columnType s i u =>
      have hsiu : c = s ∨ c = i ∨ c = u := by simpa [children] using hc
      rcases hsiu with rfl | rfl | rfl
      · exact h.1
      · exact h.2.1
      · exact h.2.2

end TypeExpr

namespace ObjectExpr

open TypeExpr

theorem wellFormed_iff {o : ObjectExpr} :
    o.WellFormed ↔ (o.properties.map Prod.fst).Nodup ∧ ∀ p ∈ o.properties, p.2.WellFormed := by
  rw [ObjectExpr.WellFormed, toTypeExpr, TypeExpr.WellFormed, wellFormedProperties_iff]

theorem wellFormed_empty : empty.WellFormed := by
  simp [wellFormed_iff]

theorem wellFormed_of_ofList?_eq_ok {ps : List (String × TypeExpr)} {o : ObjectExpr}
    (hp : ∀ p ∈ ps, p.2.WellFormed) (h : ofList? ps = .ok o) : o.WellFormed := by
  obtain ⟨hnd, rfl⟩ := ofList?_eq_ok_iff.mp h
  exact wellFormed_iff.mpr ⟨hnd, hp⟩

theorem mem_setProperty {name : String} {type : TypeExpr} {ps : List (String × TypeExpr)}
    {p : String × TypeExpr} (h : p ∈ setProperty name type ps) : p = (name, type) ∨ p ∈ ps := by
  induction ps with
  | nil => exact Or.inl (List.mem_singleton.mp h)
  | cons q ps ih =>
      obtain ⟨n, t⟩ := q
      rw [setProperty] at h
      split at h
      · rcases List.mem_cons.mp h with rfl | h
        · exact Or.inl rfl
        · exact Or.inr (List.mem_cons_of_mem _ h)
      · rcases List.mem_cons.mp h with rfl | h
        · exact Or.inr List.mem_cons_self
        · rcases ih h with rfl | h
          · exact Or.inl rfl
          · exact Or.inr (List.mem_cons_of_mem _ h)

/-- Setting a property keeps the names distinct, whether it replaces one or is added. -/
theorem nodup_setProperty {name : String} {type : TypeExpr} {ps : List (String × TypeExpr)}
    (h : (ps.map Prod.fst).Nodup) : ((setProperty name type ps).map Prod.fst).Nodup := by
  induction ps with
  | nil => simp [setProperty]
  | cons q ps ih =>
      obtain ⟨n, t⟩ := q
      rw [List.map_cons, List.nodup_cons] at h
      rw [setProperty]
      split
      · next hn =>
          subst hn
          simpa using h
      · next hn =>
          rw [List.map_cons, List.nodup_cons]
          refine ⟨?_, ih h.2⟩
          intro hmem
          obtain ⟨p, hp, hpn⟩ := List.mem_map.mp hmem
          rcases mem_setProperty hp with rfl | hp
          · exact hn hpn.symm
          · exact h.1 (List.mem_map.mpr ⟨p, hp, hpn⟩)

theorem WellFormed.set {o : ObjectExpr} (ho : o.WellFormed) (name : String) {type : TypeExpr}
    (ht : type.WellFormed) : (o.set name type).WellFormed := by
  obtain ⟨hnd, hp⟩ := wellFormed_iff.mp ho
  refine wellFormed_iff.mpr ⟨nodup_setProperty hnd, ?_⟩
  intro p hmem
  rcases mem_setProperty hmem with rfl | hmem
  · exact ht
  · exact hp p hmem

end ObjectExpr

open Reader

namespace TypeExpr

section Read

variable {readType : Reader TypeExpr}

theorem returns_readProperty (h : ∀ d, Returns WellFormed (readType d)) (m : Access)
    (d : Document) : Returns (fun p => p.2.WellFormed) (readProperty m readType d) := by
  refine (returns_fields (I := fun p : PropertyParts => ∀ t ∈ p.type, t.WellFormed) _ _ ?_
    (by simp) d).bind fun p hp => ?_
  · intro p key d hp
    unfold PropertyParts.take
    split
    · exact (returns_true _).bind fun _ _ => returns_ok hp
    · split
      · exact (returns_once h _ _ _).bind fun o ho => returns_ok ho
      · exact returns_skip hp
  · refine (returns_true _).bind fun name _ => ?_
    exact (returns_required hp).bind fun t ht => returns_ok ht

/-- The types in what is read of a column type so far are well formed. -/
structure ColumnParts.WellFormed (c : ColumnParts) : Prop where
  select : ∀ t ∈ c.select, t.WellFormed
  insert : ∀ o ∈ c.insert, ∀ t ∈ o, t.WellFormed
  update : ∀ o ∈ c.update, ∀ t ∈ o, t.WellFormed

theorem returns_takeColumn (h : ∀ d, Returns WellFormed (readType d)) (c : ColumnParts)
    (key : String) (d : Document) (hc : c.WellFormed) :
    Returns ColumnParts.WellFormed (ColumnParts.take readType c key d) := by
  unfold ColumnParts.take
  split
  · exact (returns_once h _ _ _).bind fun o ho => returns_ok { hc with select := ho }
  · split
    · exact (returns_once (returns_optional h) _ _ _).bind fun o ho =>
        returns_ok { hc with insert := ho }
    · split
      · exact (returns_once (returns_optional h) _ _ _).bind fun o ho =>
          returns_ok { hc with update := ho }
      · exact returns_skip hc

theorem returns_readColumn (h : ∀ d, Returns WellFormed (readType d)) (d : Document) :
    Returns WellFormed (readColumn readType d) := by
  have hstart : ColumnParts.WellFormed {} := ⟨by simp, by simp, by simp⟩
  refine (returns_fields _ _ (returns_takeColumn h) hstart d).bind fun c hc => ?_
  refine (returns_required hc.select).bind fun s hs => returns_ok ?_
  apply wellFormed_column hs
  · intro t ht
    exact hc.insert _ (Option.join_eq_some_iff.mp ht) t rfl
  · intro t ht
    exact hc.update _ (Option.join_eq_some_iff.mp ht) t rfl

theorem returns_readParts (h : ∀ d, Returns WellFormed (readType d)) (k : Kind) (d : Document) :
    Returns WellFormed (readParts readType k d) := by
  cases k with
  | identifier => exact (returns_true _).map fun _ _ => trivial
  | moduleReference => exact (returns_true _).map fun _ _ => trivial
  | object =>
      refine (returns_field (returns_list (returns_readProperty h _)) _ _ _ d).bind fun ps hps => ?_
      apply returns_built
      intro e he
      obtain ⟨hnd, rfl⟩ := object?_eq_ok_iff.mp he
      exact ⟨hnd, wellFormedProperties_iff.mpr hps⟩
  | union =>
      refine (returns_field (returns_list h) _ _ _ d).bind fun ms hms => ?_
      exact returns_built fun e he => wellFormed_of_union?_eq_ok hms he
  | array => exact (returns_field h _ _ _ d).map fun _ ht => ht
  | record => exact (returns_field h _ _ _ d).map fun _ ht => ht
  | columnType => exact returns_readColumn h d

/-- Whatever is read as an expression is well formed. -/
theorem returns_read (m : Access) (room : Nat) (d : Document) :
    Returns WellFormed (read m room d) := by
  induction room generalizing m d with
  | zero =>
      cases d with
      | object _ _ => exact returns_error _
      | array _ _ => exact returns_error _
      | _ => exact returns_mismatch .typeExpr _
  | succ room ih => exact (returns_true _).bind fun k _ => returns_readParts (ih .kept) k _

theorem wellFormed_of_ofText_eq_ok {text : String} {e : TypeExpr} (h : ofText text = .ok e) :
    e.WellFormed :=
  returns_whole (returns_read .text maxNesting) _ e h

end Read

end TypeExpr

namespace ObjectExpr

theorem returns_read (d : Document) : Returns ObjectExpr.WellFormed (read d) := by
  refine (returns_field (returns_list
    (TypeExpr.returns_readProperty (TypeExpr.returns_read _ _) _)) _ _ _ d).bind fun ps hps => ?_
  exact returns_built fun _ ho => wellFormed_of_ofList?_eq_ok hps ho

theorem wellFormed_of_ofText_eq_ok {text : String} {o : ObjectExpr} (h : ofText text = .ok o) :
    o.WellFormed :=
  returns_whole returns_read _ o h

end ObjectExpr

namespace Adapter

/-- Every type that the adapter holds is well formed. -/
structure WellFormed (a : Adapter) : Prop where
  defaultScalar : a.defaultScalar.WellFormed
  scalars : ∀ n t, a.scalars.get? n = some t → t.WellFormed
  definitions : ∀ n t, a.definitions.get? n = some t → t.WellFormed

/-- The types in what is read of an adapter so far are well formed. -/
structure Parts.WellFormed (p : Parts) : Prop where
  defaultScalar : ∀ t ∈ p.defaultScalar, t.WellFormed
  scalars : ∀ r ∈ p.scalars, ∀ n t, r.get? n = some t → t.WellFormed
  definitions : ∀ r ∈ p.definitions, ∀ n t, r.get? n = some t → t.WellFormed

theorem returns_takePart (p : Parts) (key : String) (d : Document) (hp : p.WellFormed) :
    Returns Parts.WellFormed (p.take key d) := by
  have htypes : ∀ d, Returns (fun r => ∀ n t, r.get? n = some t → t.WellFormed) (readTypes d) :=
    returns_registry (TypeExpr.returns_read _ _)
  unfold Parts.take
  split
  · exact (returns_true _).bind fun o _ =>
      returns_ok ⟨hp.defaultScalar, hp.scalars, hp.definitions⟩
  split
  · exact (returns_once (TypeExpr.returns_read _ _) _ _ _).bind fun o ho =>
      returns_ok { hp with defaultScalar := ho }
  split
  · exact (returns_true _).bind fun o _ =>
      returns_ok ⟨hp.defaultScalar, hp.scalars, hp.definitions⟩
  split
  · exact (returns_once htypes _ _ _).bind fun o ho => returns_ok { hp with scalars := ho }
  split
  · exact (returns_once htypes _ _ _).bind fun o ho => returns_ok { hp with definitions := ho }
  split
  · exact (returns_true _).bind fun o _ =>
      returns_ok ⟨hp.defaultScalar, hp.scalars, hp.definitions⟩
  · exact returns_skip hp

theorem returns_read (d : Document) : Returns WellFormed (read d) := by
  have hstart : Parts.WellFormed {} := ⟨by simp, by simp, by simp⟩
  refine (returns_fields _ _ returns_takePart hstart d).bind fun p hp => ?_
  refine (returns_true _).bind fun dialect _ => ?_
  refine (returns_required hp.defaultScalar).bind fun t ht => ?_
  refine (returns_true _).bind fun schemas _ => ?_
  refine (returns_required hp.scalars).bind fun scalars hs => ?_
  refine (returns_required hp.definitions).bind fun definitions hd => ?_
  exact (returns_true _).bind fun imports _ => returns_ok ⟨ht, hs, hd⟩

theorem wellFormed_of_ofText_eq_ok {text : String} {a : Adapter} (h : ofText text = .ok a) :
    a.WellFormed :=
  returns_whole returns_read _ a h

end Adapter

/-- The types that a change puts into an adapter. -/
def Adapter.Change.types : Adapter.Change → List TypeExpr
  | .defaultScalar type => [type]
  | .scalar _ type => [type]
  | .definition _ type => [type]
  | .defaultSchemas _ | .scalarsAs _ _ | .jsonDefinitions | .imported _ _ => []

/-- The adapter has the type as its default, as a scalar or as a definition. -/
def Adapter.Stores (a : Adapter) (t : TypeExpr) : Prop :=
  t = a.defaultScalar ∨ (∃ n, a.scalars.get? n = some t) ∨ ∃ n, a.definitions.get? n = some t

mutual

/-- The expressions that can be made: by the functions that build them, by reading
a text, and by taking them from larger expressions or from adapters. -/
inductive TypeExpr.Constructed : TypeExpr → Prop where
  | identifier (n : String) : (TypeExpr.identifier n).Constructed
  | moduleReference (m : ModuleRef) : (TypeExpr.moduleReference m).Constructed
  | object {o : ObjectExpr} (h : o.Constructed) : o.toTypeExpr.Constructed
  | union {ms : List TypeExpr} {e : TypeExpr} (hm : ∀ m ∈ ms, m.Constructed)
      (h : TypeExpr.union? ms = .ok e) : e.Constructed
  | unionWith {first : TypeExpr} {rest : List TypeExpr} (hf : first.Constructed)
      (hr : ∀ m ∈ rest, m.Constructed) : (TypeExpr.unionWith first rest).Constructed
  | array {t : TypeExpr} (h : t.Constructed) : (TypeExpr.array t).Constructed
  | record {t : TypeExpr} (h : t.Constructed) : (TypeExpr.record t).Constructed
  | column {s : TypeExpr} {i u : Option TypeExpr} (hs : s.Constructed)
      (hi : ∀ t, i = some t → t.Constructed) (hu : ∀ t, u = some t → t.Constructed) :
      (TypeExpr.column s i u).Constructed
  | read {text : String} {e : TypeExpr} (h : TypeExpr.ofText text = .ok e) : e.Constructed
  | child {e c : TypeExpr} (h : e.Constructed) (hc : c ∈ e.children) : c.Constructed
  | stored {a : Adapter} {t : TypeExpr} (h : a.Constructed) (ht : a.Stores t) : t.Constructed

/-- The objects that can be made, step by step or at once. -/
inductive ObjectExpr.Constructed : ObjectExpr → Prop where
  | empty : ObjectExpr.empty.Constructed
  | ofList {ps : List (String × TypeExpr)} {o : ObjectExpr} (hp : ∀ p ∈ ps, p.2.Constructed)
      (h : ObjectExpr.ofList? ps = .ok o) : o.Constructed
  | set {o : ObjectExpr} {t : TypeExpr} (ho : o.Constructed) (name : String)
      (ht : t.Constructed) : (o.set name t).Constructed
  | read {text : String} {o : ObjectExpr} (h : ObjectExpr.ofText text = .ok o) : o.Constructed
  | ofTypeExpr {o : ObjectExpr} (h : o.toTypeExpr.Constructed) : o.Constructed

/-- The adapters that can be made, by a log of changes or by reading a text. -/
inductive Adapter.Constructed : Adapter → Prop where
  | blank (dialect : Dialect) : (Adapter.blank dialect).Constructed
  | apply {a : Adapter} {c : Adapter.Change} (ha : a.Constructed)
      (hc : ∀ t ∈ c.types, t.Constructed) : (a.apply c).Constructed
  | read {text : String} {a : Adapter} (h : Adapter.ofText text = .ok a) : a.Constructed

end

theorem Adapter.WellFormed.stores {a : Adapter} (h : a.WellFormed) {t : TypeExpr}
    (ht : a.Stores t) : t.WellFormed := by
  rcases ht with rfl | ⟨n, hn⟩ | ⟨n, hn⟩
  · exact h.defaultScalar
  · exact h.scalars n t hn
  · exact h.definitions n t hn

theorem Adapter.WellFormed.setScalar {a : Adapter} (h : a.WellFormed) (n : String) {t : TypeExpr}
    (ht : t.WellFormed) : (a.setScalar n t).WellFormed := by
  refine ⟨h.defaultScalar, ?_, h.definitions⟩
  intro m u hu
  rw [Adapter.setScalar, Registry.get?_insert] at hu
  split at hu
  · cases hu
    exact ht
  · exact h.scalars m u hu

theorem Adapter.WellFormed.setDefinition {a : Adapter} (h : a.WellFormed) (n : String)
    {t : TypeExpr} (ht : t.WellFormed) : (a.setDefinition n t).WellFormed := by
  refine ⟨h.defaultScalar, h.scalars, ?_⟩
  intro m u hu
  rw [Adapter.setDefinition, Registry.get?_insert] at hu
  split at hu
  · cases hu
    exact ht
  · exact h.definitions m u hu

theorem TypeExpr.wellFormed_jsonDefinitions : ∀ d ∈ jsonDefinitions, d.2.WellFormed := by
  simp [jsonDefinitions, WellFormed, WellFormedMembers]

/-- Each change keeps the types of an adapter well formed. -/
theorem Adapter.WellFormed.apply {a : Adapter} (h : a.WellFormed) {c : Adapter.Change}
    (hc : ∀ t ∈ c.types, t.WellFormed) : (a.apply c).WellFormed := by
  cases c with
  | defaultScalar t => exact ⟨hc t List.mem_cons_self, h.scalars, h.definitions⟩
  | defaultSchemas schemas => exact ⟨h.defaultScalar, h.scalars, h.definitions⟩
  | scalar n t => exact h.setScalar n (hc t List.mem_cons_self)
  | scalarsAs natives target =>
      exact List.foldlRecOn natives _ h fun b hb n _ => hb.setScalar n trivial
  | definition n t => exact h.setDefinition n (hc t List.mem_cons_self)
  | jsonDefinitions =>
      exact List.foldlRecOn TypeExpr.jsonDefinitions _ h fun b hb d hd =>
        hb.setDefinition d.1 (TypeExpr.wellFormed_jsonDefinitions d hd)
  | imported n specifier => exact ⟨h.defaultScalar, h.scalars, h.definitions⟩

mutual

theorem TypeExpr.Constructed.wellFormed : ∀ {e : TypeExpr}, e.Constructed → e.WellFormed
  | _, .identifier _ => trivial
  | _, .moduleReference _ => trivial
  | _, .object h => h.wellFormed
  | _, .union hm h => TypeExpr.wellFormed_of_union?_eq_ok (fun m hmem => (hm m hmem).wellFormed) h
  | _, .unionWith hf hr =>
      ⟨by simp, hf.wellFormed, TypeExpr.wellFormedMembers_iff.mpr fun m hm => (hr m hm).wellFormed⟩
  | _, .array h => h.wellFormed
  | _, .record h => h.wellFormed
  | _, .column hs hi hu => TypeExpr.wellFormed_column hs.wellFormed
      (fun t ht => (hi t ht).wellFormed) (fun t ht => (hu t ht).wellFormed)
  | _, .read h => TypeExpr.wellFormed_of_ofText_eq_ok h
  | _, .child h hc => h.wellFormed.child hc
  | _, .stored h ht => h.wellFormed.stores ht

theorem ObjectExpr.Constructed.wellFormed : ∀ {o : ObjectExpr}, o.Constructed → o.WellFormed
  | _, .empty => ObjectExpr.wellFormed_empty
  | _, .ofList hp h =>
      ObjectExpr.wellFormed_of_ofList?_eq_ok (fun p hmem => (hp p hmem).wellFormed) h
  | _, .set ho name ht => ho.wellFormed.set name ht.wellFormed
  | _, .read h => ObjectExpr.wellFormed_of_ofText_eq_ok h
  | _, .ofTypeExpr h => h.wellFormed

theorem Adapter.Constructed.wellFormed : ∀ {a : Adapter}, a.Constructed → a.WellFormed
  | _, .blank _ => ⟨trivial, by simp [Adapter.blank], by simp [Adapter.blank]⟩
  | _, .apply ha hc => ha.wellFormed.apply fun t ht => (hc t ht).wellFormed
  | _, .read h => Adapter.wellFormed_of_ofText_eq_ok h

end

namespace TypeExpr

/-- Whatever is well formed can be made, by building it from its children. -/
theorem constructed_of_wellFormed {e : TypeExpr} (h : e.WellFormed) : e.Constructed := by
  induction e using byChildren with
  | h e ih =>
      have hchild : ∀ c ∈ e.children, c.Constructed := fun c hc => ih c hc (h.child hc)
      cases e with
      | identifier n => exact .identifier n
      | moduleReference m => exact .moduleReference m
      | object ps =>
          have hps : ∀ p ∈ ps, p.2.Constructed :=
            fun p hp => hchild p.2 (List.mem_map_of_mem hp)
          have ho : ObjectExpr.ofList? ps = .ok ⟨ps⟩ := ObjectExpr.ofList?_eq_ok_iff.mpr ⟨h.1, rfl⟩
          exact .object (.ofList hps ho)
      | union ms => exact .union hchild (union?_eq_ok_iff.mpr ⟨h.1, rfl⟩)
      | array t => exact .array (hchild t (by simp [children]))
      | record t => exact .record (hchild t (by simp [children]))
      | columnType s i u =>
          have hs : s.Constructed := hchild s (by simp [children])
          have hi : i.Constructed := hchild i (by simp [children])
          have hu : u.Constructed := hchild u (by simp [children])
          have hcolumn : (column s (some i) (some u)).Constructed := by
            apply Constructed.column hs
            · rintro t ⟨⟩
              exact hi
            · rintro t ⟨⟩
              exact hu
          exact hcolumn

/-- The expressions that can be made are the well-formed ones. -/
theorem constructed_iff {e : TypeExpr} : e.Constructed ↔ e.WellFormed :=
  ⟨Constructed.wellFormed, constructed_of_wellFormed⟩

end TypeExpr

end DialectTypes
