import DialectTypes.TypeExpr.Basic

/-!
# Names that occur in an expression

A name occurs in an expression if one of its nodes is that name. The relation is
given node by node, so it does not depend on the order in which an expression is
walked. The walk behind `TypeExpr.names` meets exactly the names that occur.
-/

namespace DialectTypes

namespace TypeExpr

mutual

/-- A property of expressions that passes from the children of a root to the
root holds for every expression. -/
theorem byChildren {P : TypeExpr → Prop} (h : ∀ e, (∀ c ∈ e.children, P c) → P e) :
    ∀ e, P e
  | identifier _ => h _ (by simp [children])
  | moduleReference _ => h _ (by simp [children])
  | object ps => h _ (byChildren_properties h ps)
  | union ms => h _ (byChildren_members h ms)
  | array t => h _ (by simpa [children] using byChildren h t)
  | record t => h _ (by simpa [children] using byChildren h t)
  | columnType s i u =>
      h _ (by simpa [children] using ⟨byChildren h s, byChildren h i, byChildren h u⟩)

theorem byChildren_members {P : TypeExpr → Prop} (h : ∀ e, (∀ c ∈ e.children, P c) → P e) :
    ∀ ms : List TypeExpr, ∀ c ∈ ms, P c
  | [] => by simp
  | m :: ms => by
      simpa using ⟨byChildren h m, byChildren_members h ms⟩

theorem byChildren_properties {P : TypeExpr → Prop}
    (h : ∀ e, (∀ c ∈ e.children, P c) → P e) :
    ∀ ps : List (String × TypeExpr), ∀ c ∈ ps.map Prod.snd, P c
  | [] => by simp
  | (_, t) :: ps => by
      have ht := byChildren h t
      have hps := byChildren_properties h ps
      simp only [List.map_cons, List.mem_cons]
      rintro c (rfl | hc)
      · exact ht
      · exact hps c hc

end

/-- The name stands at a node of the expression. -/
inductive Occurs (n : String) : TypeExpr → Prop where
  | identifier : Occurs n (identifier n)
  | property {name : String} {t : TypeExpr} {ps : List (String × TypeExpr)}
      (hp : (name, t) ∈ ps) (h : Occurs n t) : Occurs n (object ps)
  | member {m : TypeExpr} {ms : List TypeExpr} (hm : m ∈ ms) (h : Occurs n m) :
      Occurs n (union ms)
  | element {t : TypeExpr} (h : Occurs n t) : Occurs n (array t)
  | value {t : TypeExpr} (h : Occurs n t) : Occurs n (record t)
  | select {s i u : TypeExpr} (h : Occurs n s) : Occurs n (columnType s i u)
  | insert {s i u : TypeExpr} (h : Occurs n i) : Occurs n (columnType s i u)
  | update {s i u : TypeExpr} (h : Occurs n u) : Occurs n (columnType s i u)

/-- What occurs in an expression is its root or occurs in a child of the root. -/
theorem occurs_iff {n : String} {e : TypeExpr} :
    e.Occurs n ↔ e.name? = some n ∨ ∃ c ∈ e.children, c.Occurs n := by
  constructor
  · intro h
    cases h with
    | identifier => exact Or.inl rfl
    | property hp h => exact Or.inr ⟨_, List.mem_map_of_mem hp, h⟩
    | member hm h => exact Or.inr ⟨_, hm, h⟩
    | element h => exact Or.inr ⟨_, by simp [children], h⟩
    | value h => exact Or.inr ⟨_, by simp [children], h⟩
    | select h => exact Or.inr ⟨_, by simp [children], h⟩
    | insert h => exact Or.inr ⟨_, by simp [children], h⟩
    | update h => exact Or.inr ⟨_, by simp [children], h⟩
  · rintro (h | ⟨c, hc, h⟩)
    · rw [name?_eq_some_iff.mp h]
      exact Occurs.identifier
    · cases e with
      | identifier _ => simp [children] at hc
      | moduleReference _ => simp [children] at hc
      | object ps =>
          obtain ⟨p, hp, rfl⟩ := List.mem_map.mp hc
          exact Occurs.property hp h
      | union ms => exact Occurs.member hc h
      | array t =>
          obtain rfl : c = t := by simpa [children] using hc
          exact Occurs.element h
      | record t =>
          obtain rfl : c = t := by simpa [children] using hc
          exact Occurs.value h
      | columnType s i u =>
          have hsiu : c = s ∨ c = i ∨ c = u := by simpa [children] using hc
          rcases hsiu with rfl | rfl | rfl
          · exact Occurs.select h
          · exact Occurs.insert h
          · exact Occurs.update h

/-- The walk through an expression meets a name exactly if the name occurs. -/
theorem mem_names_iff {n : String} (e : TypeExpr) : n ∈ e.names ↔ e.Occurs n := by
  induction e using byChildren with
  | h e ih =>
      rw [names_eq, occurs_iff, List.mem_append, List.mem_flatMap]
      have hroot : n ∈ e.name?.toList ↔ e.name? = some n := by simp
      have hbelow : (∃ c ∈ e.children, n ∈ c.names) ↔ ∃ c ∈ e.children, c.Occurs n :=
        exists_congr fun c => and_congr_right fun hc => ih c hc
      rw [hroot, hbelow]

end TypeExpr

end DialectTypes
