import DialectTypes.Proofs.Construction
import Mathlib.Data.Finset.Card
import Mathlib.Data.List.Induction

/-!
# Objects as maps in order of insertion

An object that is made by setting properties one after another has each name where the
list of them has it first, with the type that it is given last. An object that is made of
a list at once is the same object, but it is refused if a name is repeated. The error then
names the first property whose name stands before it already.
-/

namespace DialectTypes

/-- The name stands before this place already, and of the names before this place none is
repeated. -/
def FirstRepeated (names : List String) (n : String) : Prop :=
  ∃ before after, names = before ++ n :: after ∧ n ∈ before ∧ before.Nodup

/-- Where some names were seen before the list, the first name that is seen again is found. -/
theorem firstRepeat_eq_some_iff {seen names : List String} {n : String} :
    firstRepeat seen names = some n ↔
      ∃ before after, names = before ++ n :: after ∧ (n ∈ seen ∨ n ∈ before) ∧
        before.Nodup ∧ ∀ m ∈ before, m ∉ seen := by
  induction names generalizing seen with
  | nil => simp [firstRepeat]
  | cons m names ih =>
      rw [firstRepeat]
      split
      · next hm =>
          rw [Option.some.injEq]
          constructor
          · rintro rfl
            exact ⟨[], names, rfl, Or.inl hm, .nil, List.forall_mem_nil _⟩
          · rintro ⟨before, after, hl, -, -, hnew⟩
            cases before with
            | nil => exact (List.cons.inj hl).1
            | cons k before =>
                obtain ⟨rfl, -⟩ := List.cons.inj hl
                exact absurd hm (hnew m List.mem_cons_self)
      · next hm =>
          rw [ih]
          constructor
          · rintro ⟨before, after, rfl, hn, hnodup, hnew⟩
            have hnotin : m ∉ before := fun h => hnew m h List.mem_cons_self
            refine ⟨m :: before, after, rfl, ?_, List.nodup_cons.mpr ⟨hnotin, hnodup⟩, ?_⟩
            · rw [List.mem_cons] at hn ⊢
              tauto
            · refine List.forall_mem_cons.mpr ⟨hm, fun k hk hseen => ?_⟩
              exact hnew k hk (List.mem_cons_of_mem m hseen)
          · rintro ⟨before, after, hl, hn, hnodup, hnew⟩
            cases before with
            | nil =>
                obtain ⟨rfl, -⟩ := List.cons.inj hl
                exact absurd (hn.resolve_right List.not_mem_nil) hm
            | cons k before =>
                obtain ⟨rfl, rfl⟩ := List.cons.inj hl
                obtain ⟨hnotin, hnodup⟩ := List.nodup_cons.mp hnodup
                refine ⟨before, after, rfl, ?_, hnodup, fun k hk hseen => ?_⟩
                · rw [List.mem_cons] at hn ⊢
                  tauto
                · rcases List.mem_cons.mp hseen with rfl | hseen
                  · exact hnotin hk
                  · exact hnew k (List.mem_cons_of_mem m hk) hseen

theorem firstRepeat_nil_eq_some_iff {names : List String} {n : String} :
    firstRepeat [] names = some n ↔ FirstRepeated names n := by
  simp [firstRepeat_eq_some_iff, FirstRepeated]

namespace ObjectExpr

/-- The property is the last one of its name. -/
def LastOfName (ps : List (String × TypeExpr)) (p : String × TypeExpr) : Prop :=
  ∃ before after, ps = before ++ p :: after ∧ p.1 ∉ after.map Prod.fst

/-- The object after the listed properties are set one by one. -/
def setAll (o : ObjectExpr) (ps : List (String × TypeExpr)) : ObjectExpr :=
  ps.foldl (fun o p => o.set p.1 p.2) o

def names (o : ObjectExpr) : List String :=
  o.properties.map Prod.fst

section Set

variable {o : ObjectExpr} {name : String} {ps : List (String × TypeExpr)}

theorem setProperty_of_not_mem (h : name ∉ ps.map Prod.fst) (type : TypeExpr) :
    setProperty name type ps = ps ++ [(name, type)] := by
  induction ps with
  | nil => rfl
  | cons p ps ih =>
      obtain ⟨hne, hps⟩ := not_or.mp (List.mem_cons.not.mp h)
      rw [setProperty, if_neg (Ne.symm hne), ih hps]
      rfl

theorem names_setProperty_of_mem (h : name ∈ ps.map Prod.fst) (type : TypeExpr) :
    (setProperty name type ps).map Prod.fst = ps.map Prod.fst := by
  induction ps with
  | nil => cases h
  | cons p ps ih =>
      obtain ⟨n, t⟩ := p
      rw [setProperty]
      split
      · next hn => simp [hn]
      · next hn =>
          have hps : name ∈ ps.map Prod.fst :=
            (List.mem_cons.mp h).resolve_left (Ne.symm hn)
          rw [List.map_cons, ih hps, List.map_cons]

/-- A name that is set stays in its place if it is there, and comes last if it is not. -/
theorem names_set (o : ObjectExpr) (name : String) (type : TypeExpr) :
    (o.set name type).names = if name ∈ o.names then o.names else o.names ++ [name] := by
  split
  · next h => exact names_setProperty_of_mem h type
  · next h => simp [names, set, setProperty_of_not_mem h type]

theorem size_eq_length_names (o : ObjectExpr) : o.size = o.names.length :=
  (List.length_map _).symm

/-- Where no name is repeated, the properties are what the names are given. -/
theorem get?_eq_some_iff (h : o.names.Nodup) {n : String} {t : TypeExpr} :
    o.get? n = some t ↔ (n, t) ∈ o.properties := by
  rw [get?, List.lookup_eq_some_iff]
  constructor
  · rintro ⟨before, after, hps, -⟩
    simp [hps]
  · intro hmem
    obtain ⟨before, after, hps⟩ := List.append_of_mem hmem
    refine ⟨before, after, hps, fun p hp => bne_iff_ne.mpr ?_⟩
    rintro rfl
    rw [names, hps, List.map_append, List.map_cons, List.nodup_middle, List.nodup_cons] at h
    exact h.1 (List.mem_append_left _ (List.mem_map.mpr ⟨p, hp, rfl⟩))

end Set

section SetAll

theorem setAll_concat (o : ObjectExpr) (ps : List (String × TypeExpr)) (p : String × TypeExpr) :
    o.setAll (ps ++ [p]) = (o.setAll ps).set p.1 p.2 := by
  simp [setAll]

/-- Names come in the order in which they are first set. -/
theorem names_setAll (ps : List (String × TypeExpr)) :
    (empty.setAll ps).names = (ps.map Prod.fst).eraseDups := by
  induction ps using List.reverseRecOn with
  | nil => rfl
  | append_singleton ps p ih =>
      rw [setAll_concat, names_set, ih, List.map_append, List.eraseDups_append]
      by_cases hp : p.1 ∈ ps.map Prod.fst
      · simp [hp, List.removeAll]
      · simp [hp, List.removeAll, List.eraseDups_cons]

theorem nodup_names_setAll (ps : List (String × TypeExpr)) : (empty.setAll ps).names.Nodup := by
  induction ps using List.reverseRecOn with
  | nil => exact .nil
  | append_singleton ps p ih =>
      rw [setAll_concat]
      exact nodup_setProperty ih

/-- A name has the type that it is given last. -/
theorem get?_setAll (ps : List (String × TypeExpr)) (n : String) :
    (empty.setAll ps).get? n = ps.reverse.lookup n := by
  induction ps using List.reverseRecOn with
  | nil => rfl
  | append_singleton ps p ih =>
      rw [setAll_concat, get?_set, ih, List.reverse_concat, List.lookup_cons]
      split
      · next hn => simp [hn]
      · next hn => simp [beq_false_of_ne hn]

theorem lookup_reverse_eq_some_iff {ps : List (String × TypeExpr)} {p : String × TypeExpr} :
    ps.reverse.lookup p.1 = some p.2 ↔ LastOfName ps p := by
  rw [List.lookup_eq_some_iff]
  constructor
  · rintro ⟨after, before, hps, hafter⟩
    refine ⟨before.reverse, after.reverse, ?_, fun hmem => ?_⟩
    · rw [← List.reverse_inj, hps]
      simp
    · obtain ⟨q, hq, hqp⟩ := List.mem_map.mp hmem
      exact bne_iff_ne.mp (hafter q (List.mem_reverse.mp hq)) hqp.symm
  · rintro ⟨before, after, rfl, hafter⟩
    refine ⟨after.reverse, before.reverse, by simp, fun q hq => bne_iff_ne.mpr fun hqp => ?_⟩
    exact hafter (List.mem_map.mpr ⟨q, List.mem_reverse.mp hq, hqp.symm⟩)

theorem get?_setAll_eq_none_iff {ps : List (String × TypeExpr)} {n : String} :
    (empty.setAll ps).get? n = none ↔ n ∉ ps.map Prod.fst := by
  rw [get?_setAll, List.lookup_eq_none_iff]
  simp only [List.mem_reverse, bne_iff_ne, List.mem_map, not_exists, not_and]
  exact forall₂_congr fun p _ => ne_comm

theorem size_setAll (ps : List (String × TypeExpr)) :
    (empty.setAll ps).size = (ps.map Prod.fst).toFinset.card := by
  have hsame : (ps.map Prod.fst).toFinset = (empty.setAll ps).names.toFinset := by
    ext n
    simp only [List.mem_toFinset, names_setAll, List.mem_eraseDups]
  rw [hsame, List.toFinset_card_of_nodup (nodup_names_setAll ps), size_eq_length_names]

/-- Properties with names of their own are all added, one after another. -/
theorem setAll_of_nodup {ps : List (String × TypeExpr)} (h : (ps.map Prod.fst).Nodup) :
    empty.setAll ps = ⟨ps⟩ := by
  induction ps using List.reverseRecOn with
  | nil => rfl
  | append_singleton ps p ih =>
      rw [List.map_append, List.nodup_append] at h
      obtain ⟨hps, -, hdisjoint⟩ := h
      have hnew : p.1 ∉ ps.map Prod.fst := fun hmem => hdisjoint p.1 hmem p.1 (by simp) rfl
      rw [setAll_concat, ih hps, set, setProperty_of_not_mem hnew]

end SetAll

theorem ofList?_eq_error_iff {ps : List (String × TypeExpr)} {e : ConstructionError} :
    ofList? ps = .error e ↔
      ∃ n, FirstRepeated (ps.map Prod.fst) n ∧ e = .duplicateProperty n := by
  simp only [← firstRepeat_nil_eq_some_iff]
  unfold ofList?
  cases firstRepeat [] (ps.map Prod.fst) <;> simp [eq_comm]

/-- An object is a map that keeps the order of insertion. Setting properties one by one gives
the distinct names in the order in which each occurs first, and each name the type that it
is given last. Making an object of the list at once gives the same object if the names are
distinct, and otherwise the error for the first name that is repeated. -/
theorem insertion_ordered_map (ps : List (String × TypeExpr)) :
    (empty.setAll ps).properties.map Prod.fst = (ps.map Prod.fst).eraseDups ∧
    (∀ p, p ∈ (empty.setAll ps).properties ↔ LastOfName ps p) ∧
    (∀ n t, (empty.setAll ps).get? n = some t ↔ LastOfName ps (n, t)) ∧
    (∀ n, (empty.setAll ps).get? n = none ↔ n ∉ ps.map Prod.fst) ∧
    (empty.setAll ps).size = (ps.map Prod.fst).toFinset.card ∧
    (∀ o, ofList? ps = .ok o ↔ (ps.map Prod.fst).Nodup ∧ o = empty.setAll ps) ∧
    ∀ e, ofList? ps = .error e ↔
      ∃ n, FirstRepeated (ps.map Prod.fst) n ∧ e = .duplicateProperty n := by
  have hget : ∀ p : String × TypeExpr,
      (empty.setAll ps).get? p.1 = some p.2 ↔ LastOfName ps p := fun p => by
    rw [get?_setAll, lookup_reverse_eq_some_iff]
  refine ⟨names_setAll ps, fun p => ?_, fun n t => hget (n, t), fun n => get?_setAll_eq_none_iff,
    size_setAll ps, fun o => ?_, fun e => ofList?_eq_error_iff⟩
  · rw [← hget, get?_eq_some_iff (nodup_names_setAll ps)]
  · rw [ofList?_eq_ok_iff]
    refine and_congr_right fun hnodup => ?_
    rw [setAll_of_nodup hnodup]
    exact ⟨fun h => congrArg mk h, fun h => congrArg properties h⟩

/-- A name that is set again keeps its place. -/
example :
    (empty.setAll [("x", .identifier "number"), ("y", .identifier "number"),
      ("x", .identifier "string")]).properties =
      [("x", .identifier "string"), ("y", .identifier "number")] := rfl

end ObjectExpr

end DialectTypes
