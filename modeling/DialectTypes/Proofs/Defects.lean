import DialectTypes.Proofs.AliasChains
import DialectTypes.Proofs.Occurrence

/-!
# The first defect

The three sorts of defects are stated by themselves, without the lists and walks
by which validation looks for them. Validation gives the first defect: an
ambiguous name before a dangling reference before a cycle of aliases, each of
them at its least place. It succeeds exactly if there is no defect.
-/

namespace DialectTypes

namespace Adapter

/-- A name that satisfies a condition where no lesser name does. -/
def LeastName (P : String → Prop) (n : String) : Prop :=
  P n ∧ ∀ m, P m → ¬ m < n

theorem LeastName.unique {P : String → Prop} {m n : String} (hm : LeastName P m)
    (hn : LeastName P n) : m = n :=
  String.le_antisymm (hm.2 n hn.1) (hn.2 m hm.1)

/-- In a list in order, what comes before an item stands in front of it. -/
theorem mem_left_of_before {α : Type} {r : α → α → Prop} (hr : ∀ x y, r x y → ¬ r y x)
    {before after : List α} {x y : α} (hl : (before ++ x :: after).Pairwise r)
    (hy : y ∈ before ++ x :: after) (hyx : r y x) : y ∈ before := by
  rw [List.pairwise_append, List.pairwise_cons] at hl
  rcases List.mem_append.mp hy with hy | hy
  · exact hy
  · rcases List.mem_cons.mp hy with rfl | hy
    · exact absurd hyx (hr _ _ hyx)
    · exact absurd hyx (hr _ _ (hl.2.1.1 y hy))

/-- A search through the names of a registry finds the least that satisfies a condition. -/
theorem leastName_of_find?_keys {α : Type} {r : Registry α} {p : String → Bool} {n : String}
    (h : r.keys.find? p = some n) : LeastName (fun m => m ∈ r.keys ∧ p m = true) n := by
  obtain ⟨hp, before, after, hl, hbefore⟩ := List.find?_eq_some_iff_append.mp h
  refine ⟨⟨List.mem_of_find?_eq_some h, hp⟩, ?_⟩
  rintro m ⟨hm, hpm⟩ hlt
  have hasc := r.keys_ascending
  rw [hl] at hm hasc
  have := hbefore m (mem_left_of_before (fun _ _ => String.lt_asymm) hasc hm hlt)
  simp [hpm] at this

variable (a : Adapter)

/-- The name is both a definition and an import. -/
def Ambiguous (n : String) : Prop :=
  n ∈ a.definitions.keys ∧ n ∈ a.imports.keys

/-- The name is neither a builtin nor a definition nor an import. -/
def Unknown (n : String) : Prop :=
  TypeExpr.isBuiltin n = false ∧ n ∉ a.definitions.keys ∧ n ∉ a.imports.keys

/-- Where an adapter holds a type. -/
inductive Place where
  | defaultScalar
  | scalar (name : String)
  | definition (name : String)

namespace Place

/-- The name of the place in messages. -/
def entry : Place → String
  | defaultScalar => "defaultScalar"
  | scalar name => "scalars." ++ name
  | definition name => "definitions." ++ name

/-- The default comes first, then the scalars and then the definitions, each by name. -/
inductive Before : Place → Place → Prop where
  | default_scalar {n : String} : Before defaultScalar (scalar n)
  | default_definition {n : String} : Before defaultScalar (definition n)
  | scalars {m n : String} (h : m < n) : Before (scalar m) (scalar n)
  | scalar_definition {m n : String} : Before (scalar m) (definition n)
  | definitions {m n : String} (h : m < n) : Before (definition m) (definition n)

theorem Before.asymm {p q : Place} (h : p.Before q) : ¬ q.Before p := by
  intro h'
  cases h with
  | default_scalar => cases h'
  | default_definition => cases h'
  | scalars h => cases h' with
    | scalars h' => exact String.lt_asymm h h'
  | scalar_definition => cases h'
  | definitions h => cases h' with
    | definitions h' => exact String.lt_asymm h h'

theorem eq_of_not_before {p q : Place} (hpq : ¬ p.Before q) (hqp : ¬ q.Before p) : p = q := by
  cases p with
  | defaultScalar => cases q with
    | defaultScalar => rfl
    | scalar n => exact absurd .default_scalar hpq
    | definition n => exact absurd .default_definition hpq
  | scalar m => cases q with
    | defaultScalar => exact absurd .default_scalar hqp
    | scalar n =>
        rw [String.le_antisymm (fun h => hqp (.scalars h)) (fun h => hpq (.scalars h))]
    | definition n => exact absurd .scalar_definition hpq
  | definition m => cases q with
    | defaultScalar => exact absurd .default_definition hqp
    | scalar n => exact absurd .scalar_definition hqp
    | definition n =>
        rw [String.le_antisymm (fun h => hqp (.definitions h)) (fun h => hpq (.definitions h))]

end Place

/-- The type at a place. -/
def typeAt? : Place → Option TypeExpr
  | .defaultScalar => some a.defaultScalar
  | .scalar name => a.scalars.get? name
  | .definition name => a.definitions.get? name

/-- The type at the place refers to the name, which nothing explains. -/
def Dangles (p : Place) (n : String) : Prop :=
  ∃ type, a.typeAt? p = some type ∧ type.Occurs n ∧ a.Unknown n

/-- The name is the first that nothing explains in the order in which a type is walked. -/
def FirstUnknown (type : TypeExpr) (n : String) : Prop :=
  a.Unknown n ∧ ∃ before after, type.names = before ++ n :: after ∧ ∀ m ∈ before, ¬ a.Unknown m

/-- No place before this one has a dangling reference, and the name is its first. -/
structure FirstDangling (p : Place) (n : String) : Prop where
  first : ∃ type, a.typeAt? p = some type ∧ a.FirstUnknown type n
  before : ∀ q m, q.Before p → ¬ a.Dangles q m

/-- The result that validation ought to have. -/
inductive Verdict : Except Defect Unit → Prop where
  | ambiguousName {n : String} (h : LeastName a.Ambiguous n) :
      Verdict (.error (.ambiguousName n))
  | danglingReference {p : Place} {n : String} (ha : ∀ m, ¬ a.Ambiguous m)
      (h : a.FirstDangling p n) : Verdict (.error (.danglingReference p.entry n))
  | aliasCycle {n : String} (ha : ∀ m, ¬ a.Ambiguous m) (hd : ∀ p m, ¬ a.Dangles p m)
      (h : LeastName a.Endless n) : Verdict (.error (.aliasCycle n))
  | valid (ha : ∀ m, ¬ a.Ambiguous m) (hd : ∀ p m, ¬ a.Dangles p m)
      (he : ∀ m, ¬ a.Endless m) : Verdict (.ok ())

section Search

variable {a}

theorem knows_eq_false_iff {n : String} : a.knows n = false ↔ a.Unknown n := by
  rw [Unknown, ← Registry.contains_iff, ← Registry.contains_iff, knows]
  simp only [Bool.or_eq_false_iff, Bool.not_eq_true]
  exact and_comm

theorem unknownName?_eq_some_iff {type : TypeExpr} {n : String} :
    a.unknownName? type = some n ↔ a.FirstUnknown type n := by
  rw [unknownName?, List.find?_eq_some_iff_append, FirstUnknown]
  have hknows : ∀ m, (!(!a.knows m)) = true ↔ ¬ a.Unknown m := fun m => by
    rw [← knows_eq_false_iff]
    simp
  simp only [Bool.not_eq_true', knows_eq_false_iff, hknows]

theorem unknownName?_eq_none_iff {type : TypeExpr} :
    a.unknownName? type = none ↔ ∀ n, type.Occurs n → ¬ a.Unknown n := by
  rw [unknownName?, List.find?_eq_none]
  simp only [Bool.not_eq_true', knows_eq_false_iff, TypeExpr.mem_names_iff]

theorem FirstUnknown.occurs {type : TypeExpr} {n : String} (h : a.FirstUnknown type n) :
    type.Occurs n := by
  obtain ⟨_, before, after, hnames, _⟩ := h
  rw [← TypeExpr.mem_names_iff, hnames]
  simp

theorem FirstDangling.dangles {p : Place} {n : String} (h : a.FirstDangling p n) :
    a.Dangles p n := by
  obtain ⟨type, ht, hn⟩ := h.first
  exact ⟨type, ht, hn.occurs, hn.1⟩

theorem FirstDangling.unique {p q : Place} {m n : String} (hm : a.FirstDangling p m)
    (hn : a.FirstDangling q n) : p = q ∧ m = n := by
  obtain rfl : p = q := by
    apply Place.eq_of_not_before
    · intro hpq
      exact hn.before p m hpq hm.dangles
    · intro hqp
      exact hm.before q n hqp hn.dangles
  refine ⟨rfl, ?_⟩
  obtain ⟨type, ht, hm⟩ := hm.first
  obtain ⟨other, ho, hn⟩ := hn.first
  obtain rfl := Option.some.inj (ht.symm.trans ho)
  exact Option.some.inj
    ((unknownName?_eq_some_iff.mpr hm).symm.trans (unknownName?_eq_some_iff.mpr hn))

/-- The types of an adapter with their places. -/
def placed (a : Adapter) : List (Place × TypeExpr) :=
  (.defaultScalar, a.defaultScalar) ::
    (a.scalars.entries.map (fun e => (.scalar e.1, e.2)) ++
      a.definitions.entries.map fun e => (.definition e.1, e.2))

theorem places_eq_map_placed : a.places = a.placed.map fun q => (q.1.entry, q.2) := by
  simp only [places, placed, List.map_cons, List.map_append, List.map_map]
  rfl

theorem mem_placed_iff {p : Place} {type : TypeExpr} :
    (p, type) ∈ a.placed ↔ a.typeAt? p = some type := by
  cases p with
  | defaultScalar => simp [placed, typeAt?, eq_comm]
  | scalar name => simp [placed, typeAt?, Registry.get?_eq_some_iff]
  | definition name => simp [placed, typeAt?, Registry.get?_eq_some_iff]

theorem placed_pairwise : a.placed.Pairwise fun q r => q.1.Before r.1 := by
  rw [placed, List.pairwise_cons, List.pairwise_append]
  refine ⟨?_, ?_, ?_, ?_⟩
  · intro q hq
    rcases List.mem_append.mp hq with hq | hq
    · obtain ⟨e, _, rfl⟩ := List.mem_map.mp hq
      exact .default_scalar
    · obtain ⟨e, _, rfl⟩ := List.mem_map.mp hq
      exact .default_definition
  · exact List.pairwise_map.mpr (a.scalars.ascending.imp .scalars)
  · exact List.pairwise_map.mpr (a.definitions.ascending.imp .definitions)
  · intro q hq r hr
    obtain ⟨e, _, rfl⟩ := List.mem_map.mp hq
    obtain ⟨f, _, rfl⟩ := List.mem_map.mp hr
    exact .scalar_definition

theorem danglingReference?_eq_findSome? :
    a.danglingReference? =
      a.placed.findSome? fun q => (a.unknownName? q.2).map fun n => (q.1.entry, n) := by
  rw [danglingReference?, places_eq_map_placed, List.findSome?_map]
  rfl

theorem firstDangling_of_eq_some {entry n : String}
    (h : a.danglingReference? = some (entry, n)) :
    ∃ p, p.entry = entry ∧ a.FirstDangling p n := by
  rw [danglingReference?_eq_findSome?] at h
  obtain ⟨before, ⟨p, type⟩, after, hl, hp, hbefore⟩ := List.findSome?_eq_some_iff.mp h
  obtain ⟨m, hm, heq⟩ := Option.map_eq_some_iff.mp hp
  obtain ⟨rfl, rfl⟩ := Prod.mk.inj heq
  refine ⟨p, rfl, ⟨type, ?_, unknownName?_eq_some_iff.mp hm⟩, ?_⟩
  · rw [← mem_placed_iff, hl]
    simp
  · rintro q k hqp ⟨other, ho, hocc, hk⟩
    have hpairs := a.placed_pairwise
    have hmem : (q, other) ∈ a.placed := mem_placed_iff.mpr ho
    rw [hl] at hpairs hmem
    have hleft := mem_left_of_before (fun _ _ => Place.Before.asymm) hpairs hmem hqp
    have hnone : a.unknownName? other = none := by simpa using hbefore _ hleft
    exact unknownName?_eq_none_iff.mp hnone k hocc hk

theorem not_dangles_of_eq_none (h : a.danglingReference? = none) (p : Place) (n : String) :
    ¬ a.Dangles p n := by
  rw [danglingReference?_eq_findSome?, List.findSome?_eq_none_iff] at h
  rintro ⟨type, ht, hocc, hn⟩
  have hnone : a.unknownName? type = none := by simpa using h _ (mem_placed_iff.mpr ht)
  exact unknownName?_eq_none_iff.mp hnone n hocc hn

theorem leastName_ambiguous_of_eq_some {n : String} (h : a.ambiguousName? = some n) :
    LeastName a.Ambiguous n := by
  have hleast := leastName_of_find?_keys h
  simp only [Registry.contains_iff] at hleast
  exact hleast

theorem not_ambiguous_of_eq_none (h : a.ambiguousName? = none) (n : String) :
    ¬ a.Ambiguous n := by
  rintro ⟨hd, hi⟩
  exact List.find?_eq_none.mp h n hd (Registry.contains_iff.mpr hi)

theorem leastName_endless_of_eq_some {n : String} (h : a.aliasCycle? = some n) :
    LeastName a.Endless n := by
  obtain ⟨⟨_, hn⟩, hleast⟩ := leastName_of_find?_keys h
  refine ⟨repeatsFrom_nil_iff.mp hn, ?_⟩
  intro m hm
  exact hleast m ⟨hm.mem_keys, repeatsFrom_nil_iff.mpr hm⟩

theorem not_endless_of_eq_none (h : a.aliasCycle? = none) (n : String) : ¬ a.Endless n := by
  intro hn
  exact List.find?_eq_none.mp h n hn.mem_keys (repeatsFrom_nil_iff.mpr hn)

end Search

theorem verdict_validate : a.Verdict a.validate := by
  unfold validate defect?
  cases ha : a.ambiguousName? with
  | some n => exact .ambiguousName (leastName_ambiguous_of_eq_some ha)
  | none =>
      have hamb := not_ambiguous_of_eq_none ha
      cases hd : a.danglingReference? with
      | some p =>
          obtain ⟨q, hq, hfirst⟩ := firstDangling_of_eq_some hd
          have := Verdict.danglingReference hamb hfirst
          rwa [hq] at this
      | none =>
          have hdang := not_dangles_of_eq_none hd
          cases hc : a.aliasCycle? with
          | some n => exact .aliasCycle hamb hdang (leastName_endless_of_eq_some hc)
          | none => exact .valid hamb hdang (not_endless_of_eq_none hc)

variable {a} in
/-- No adapter has two verdicts. -/
theorem Verdict.unique {r s : Except Defect Unit} (hr : a.Verdict r) (hs : a.Verdict s) :
    r = s := by
  cases hr with
  | @ambiguousName m hm =>
      cases hs with
      | @ambiguousName n hn => rw [hm.unique hn]
      | danglingReference ha _ => exact absurd hm.1 (ha m)
      | aliasCycle ha _ _ => exact absurd hm.1 (ha m)
      | valid ha _ _ => exact absurd hm.1 (ha m)
  | @danglingReference p m ha hm =>
      cases hs with
      | @ambiguousName n hn => exact absurd hn.1 (ha n)
      | danglingReference _ hn =>
          obtain ⟨rfl, rfl⟩ := hm.unique hn
          rfl
      | aliasCycle _ hd _ => exact absurd hm.dangles (hd p m)
      | valid _ hd _ => exact absurd hm.dangles (hd p m)
  | @aliasCycle m ha hd hm =>
      cases hs with
      | @ambiguousName n hn => exact absurd hn.1 (ha n)
      | @danglingReference q n _ hn => exact absurd hn.dangles (hd q n)
      | @aliasCycle n _ _ hn => rw [hm.unique hn]
      | valid _ _ he => exact absurd hm.1 (he m)
  | valid ha hd he =>
      cases hs with
      | @ambiguousName n hn => exact absurd hn.1 (ha n)
      | @danglingReference q n _ hn => exact absurd hn.dangles (hd q n)
      | @aliasCycle n _ _ hn => exact absurd hn.1 (he n)
      | valid _ _ _ => rfl

theorem validate_eq_iff {r : Except Defect Unit} : a.validate = r ↔ a.Verdict r := by
  constructor
  · rintro rfl
    exact a.verdict_validate
  · intro hr
    exact a.verdict_validate.unique hr

/-- Validation gives the first defect of an adapter and success where there is none.
A cycle that it reports consists of bare names only, so types may refer to themselves
through objects, unions, arrays, records and column types. -/
theorem validate_gives_first_defect :
    (∀ r, a.validate = r ↔ a.Verdict r) ∧
    (a.validate = .ok () ↔
      (∀ n, ¬ a.Ambiguous n) ∧ (∀ p n, ¬ a.Dangles p n) ∧ ∀ n, ¬ a.Endless n) ∧
    (∀ n, a.validate = .error (.aliasCycle n) → ∀ k m, a.aliasAfter k n = some m →
      ∃ target, a.definitions.get? m = some (.identifier target)) := by
  refine ⟨fun r => a.validate_eq_iff, ?_, ?_⟩
  · rw [validate_eq_iff]
    constructor
    · rintro ⟨⟩
      exact ⟨‹_›, ‹_›, ‹_›⟩
    · rintro ⟨ha, hd, he⟩
      exact .valid ha hd he
  · intro n hn k m hk
    cases a.validate_eq_iff.mp hn with
    | aliasCycle _ _ h => exact h.1.exists_identifier hk

end Adapter

end DialectTypes
