import DialectTypes.Adapter.Dependencies
import DialectTypes.Proofs.Occurrence

/-!
# The names that an expression reaches

An expression reaches the names that occur in it and, through the definition of
each name it reaches, the names that occur there; builtins are left out. The
search for dependencies lists exactly the names reached, on every adapter, and
sorts each of them by what the adapter has under that name.

The invariant of the search has one list beside the state, the names of the
expression in hand that are not yet recorded. Reading an expression fills the
list and each recorded name shortens it.
-/

namespace DialectTypes

namespace Adapter

/-- The names, apart from builtins, to which an expression leads through the definitions. -/
inductive Reaches (a : Adapter) (e : TypeExpr) : String → Prop where
  | here {n : String} (h : e.Occurs n) (hb : TypeExpr.isBuiltin n = false) : Reaches a e n
  | through {via n : String} {body : TypeExpr} (hv : Reaches a e via)
      (hd : a.definitions.get? via = some body) (h : body.Occurs n)
      (hb : TypeExpr.isBuiltin n = false) : Reaches a e n

theorem Reaches.isBuiltin_eq_false {a : Adapter} {e : TypeExpr} {n : String}
    (h : a.Reaches e n) : TypeExpr.isBuiltin n = false := by
  cases h with
  | here _ hb => exact hb
  | through _ _ _ hb => exact hb

end Adapter

namespace Dependencies

/-- The name is among the definitions, the imports or the unresolved names. -/
def Lists (d : Dependencies) (n : String) : Prop :=
  n ∈ d.definitions.toList ∨ n ∈ d.imports.keys ∨ n ∈ d.unresolved.toList

instance (d : Dependencies) (n : String) : Decidable (d.Lists n) :=
  inferInstanceAs (Decidable (_ ∨ _ ∨ _))

/-- Every listed name stands in the part that belongs to what the adapter has under it. -/
structure Placed (a : Adapter) (d : Dependencies) : Prop where
  definitions : ∀ n ∈ d.definitions.toList, n ∈ a.definitions.keys
  imports : ∀ n source, d.imports.get? n = some source →
    n ∉ a.definitions.keys ∧ a.imports.get? n = some source
  unresolved : ∀ n ∈ d.unresolved.toList, n ∉ a.definitions.keys ∧ n ∉ a.imports.keys

theorem placed_empty (a : Adapter) : Placed a empty where
  definitions n hn := by simp [empty, NameSet.toList] at hn
  imports n source h := by simp [empty] at h
  unresolved n hn := by simp [empty, NameSet.toList] at hn

theorem not_lists_empty (n : String) : ¬ empty.Lists n := by
  simp [Lists, empty, NameSet.toList]

section Placed

variable {a : Adapter} {d : Dependencies} {n : String}

theorem Placed.mem_definitions_iff (h : d.Placed a) :
    n ∈ d.definitions.toList ↔ d.Lists n ∧ n ∈ a.definitions.keys := by
  constructor
  · intro hn
    exact ⟨Or.inl hn, h.definitions n hn⟩
  · rintro ⟨hn | hn | hn, hk⟩
    · exact hn
    · obtain ⟨source, hs⟩ := Registry.mem_keys_iff.mp hn
      exact absurd hk (h.imports n source hs).1
    · exact absurd hk (h.unresolved n hn).1

theorem Placed.get?_imports_iff (h : d.Placed a) {source : ModuleRef} :
    d.imports.get? n = some source ↔
      d.Lists n ∧ n ∉ a.definitions.keys ∧ a.imports.get? n = some source := by
  constructor
  · intro hs
    exact ⟨Or.inr (Or.inl (Registry.mem_keys_iff.mpr ⟨source, hs⟩)), h.imports n source hs⟩
  · rintro ⟨hn | hn | hn, hk, hi⟩
    · exact absurd (h.definitions n hn) hk
    · obtain ⟨other, ho⟩ := Registry.mem_keys_iff.mp hn
      rw [ho, ← hi]
      exact (h.imports n other ho).2.symm
    · exact absurd (Registry.mem_keys_iff.mpr ⟨source, hi⟩) (h.unresolved n hn).2

theorem Placed.mem_unresolved_iff (h : d.Placed a) :
    n ∈ d.unresolved.toList ↔ d.Lists n ∧ n ∉ a.definitions.keys ∧ n ∉ a.imports.keys := by
  constructor
  · intro hn
    exact ⟨Or.inr (Or.inr hn), h.unresolved n hn⟩
  · rintro ⟨hn | hn | hn, hk, hi⟩
    · exact absurd (h.definitions n hn) hk
    · obtain ⟨source, hs⟩ := Registry.mem_keys_iff.mp hn
      exact absurd (Registry.mem_keys_iff.mpr ⟨source, (h.imports n source hs).2⟩) hi
    · exact hn

/-- Names that are listed in their places are told by the list of them all. -/
theorem Placed.ext {e : Dependencies} (hd : d.Placed a) (he : e.Placed a)
    (h : ∀ n, d.Lists n ↔ e.Lists n) : d = e := by
  have hdefinitions : d.definitions = e.definitions := NameSet.ext_toList fun n => by
    rw [hd.mem_definitions_iff, he.mem_definitions_iff, h]
  have himports : d.imports = e.imports := by
    ext n source
    rw [hd.get?_imports_iff, he.get?_imports_iff, h]
  have hunresolved : d.unresolved = e.unresolved := NameSet.ext_toList fun n => by
    rw [hd.mem_unresolved_iff, he.mem_unresolved_iff, h]
  cases d
  cases e
  simp_all

end Placed

end Dependencies

namespace Adapter

namespace Search

/-- What recording a name makes of a search. -/
inductive Noted (a : Adapter) (s : Search) (n : String) : Search → Prop where
  | passed (h : TypeExpr.isBuiltin n = true ∨ n ∈ s.found.definitions.toList) : Noted a s n s
  | definition {body : TypeExpr} (hb : TypeExpr.isBuiltin n = false)
      (hd : a.definitions.get? n = some body) :
      Noted a s n
        { pending := body :: s.pending
          found := { s.found with definitions := s.found.definitions.add n } }
  | imported {source : ModuleRef} (hb : TypeExpr.isBuiltin n = false)
      (hd : n ∉ a.definitions.keys) (hi : a.imports.get? n = some source) :
      Noted a s n { s with found := { s.found with imports := s.found.imports.insert n source } }
  | unresolved (hb : TypeExpr.isBuiltin n = false) (hd : n ∉ a.definitions.keys)
      (hi : n ∉ a.imports.keys) :
      Noted a s n { s with found := { s.found with unresolved := s.found.unresolved.add n } }

theorem noted_note (a : Adapter) (s : Search) (n : String) : Noted a s n (s.note a n) := by
  unfold note
  split
  · next h =>
      apply Noted.passed
      simpa [NameSet.toList, Registry.contains_iff] using h
  · next h =>
      have hb : TypeExpr.isBuiltin n = false := by
        simp only [Bool.or_eq_true, not_or, Bool.not_eq_true] at h
        exact h.1
      cases hd : a.definitions.get? n with
      | some body => exact Noted.definition hb hd
      | none =>
          have hk : n ∉ a.definitions.keys := Registry.get?_eq_none_iff.mp hd
          cases hi : a.imports.get? n with
          | some source => exact Noted.imported hb hk hi
          | none => exact Noted.unresolved hb hk (Registry.get?_eq_none_iff.mp hi)

section Noted

variable {a : Adapter} {s t : Search} {n : String}

/-- Recording a name lists it, unless it is a builtin, and lists nothing else. -/
theorem Noted.lists_iff (h : Noted a s n t) {m : String} :
    t.found.Lists m ↔ s.found.Lists m ∨ m = n ∧ TypeExpr.isBuiltin n = false := by
  cases h with
  | passed h =>
      constructor
      · exact Or.inl
      · rintro (hm | ⟨rfl, hb⟩)
        · exact hm
        · rcases h with h | h
          · rw [h] at hb
            cases hb
          · exact Or.inl h
  | definition hb hd =>
      simp [Dependencies.Lists, hb, or_assoc, or_comm]
  | imported hb hd hi =>
      simp [Dependencies.Lists, Registry.mem_keys_insert, hb, or_comm, or_left_comm]
  | unresolved hb hd hi =>
      simp [Dependencies.Lists, hb, or_assoc, or_comm, or_left_comm]

theorem Noted.placed (h : Noted a s n t) (hs : s.found.Placed a) : t.found.Placed a := by
  cases h with
  | passed _ => exact hs
  | definition _ hd =>
      refine ⟨?_, hs.imports, hs.unresolved⟩
      intro m hm
      rcases NameSet.mem_toList_add.mp hm with rfl | hm
      · exact Registry.mem_keys_iff.mpr ⟨_, hd⟩
      · exact hs.definitions m hm
  | imported _ hd hi =>
      refine ⟨hs.definitions, ?_, hs.unresolved⟩
      intro m source hm
      rw [Registry.get?_insert] at hm
      split at hm
      · next hmn =>
          rw [hmn, hi, hm]
          exact ⟨hd, rfl⟩
      · exact hs.imports m source hm
  | unresolved _ hd hi =>
      refine ⟨hs.definitions, hs.imports, ?_⟩
      intro m hm
      rcases NameSet.mem_toList_add.mp hm with rfl | hm
      · exact ⟨hd, hi⟩
      · exact hs.unresolved m hm

theorem Noted.mem_pending_of_mem (h : Noted a s n t) {q : TypeExpr} (hq : q ∈ s.pending) :
    q ∈ t.pending := by
  cases h with
  | passed _ => exact hq
  | definition _ _ => exact List.mem_cons_of_mem _ hq
  | imported _ _ _ => exact hq
  | unresolved _ _ _ => exact hq

/-- What is new among the pending expressions is the definition of the recorded name. -/
theorem Noted.pending_cases (h : Noted a s n t) {q : TypeExpr} (hq : q ∈ t.pending) :
    q ∈ s.pending ∨ TypeExpr.isBuiltin n = false ∧ a.definitions.get? n = some q := by
  cases h with
  | passed _ => exact Or.inl hq
  | definition hb hd =>
      rcases List.mem_cons.mp hq with rfl | hq
      · exact Or.inr ⟨hb, hd⟩
      · exact Or.inl hq
  | imported _ _ _ => exact Or.inl hq
  | unresolved _ _ _ => exact Or.inl hq

/-- A definition is pending once its name is recorded, unless it was listed before. -/
theorem Noted.body_pending (h : Noted a s n t) {body : TypeExpr}
    (hb : TypeExpr.isBuiltin n = false) (hd : a.definitions.get? n = some body) :
    body ∈ t.pending ∨ s.found.Lists n := by
  have hk : n ∈ a.definitions.keys := Registry.mem_keys_iff.mpr ⟨body, hd⟩
  cases h with
  | passed h =>
      rcases h with h | h
      · rw [h] at hb
        cases hb
      · exact Or.inr (Or.inl h)
  | definition _ hd' =>
      rw [hd] at hd'
      obtain rfl := Option.some.inj hd'
      exact Or.inl List.mem_cons_self
  | imported _ hn _ => exact absurd hk hn
  | unresolved _ hn _ => exact absurd hk hn

end Noted

/-- The root of the search, or the definition of a name that is listed. -/
def Holds (a : Adapter) (e : TypeExpr) (s : Search) (q : TypeExpr) : Prop :=
  q = e ∨ ∃ n, s.found.Lists n ∧ a.definitions.get? n = some q

/-- What is true of a search from `e` while the names `unread` of the expression
in hand are still to be recorded. -/
structure Invariant (a : Adapter) (e : TypeExpr) (unread : List String) (s : Search) : Prop where
  placed : s.found.Placed a
  listed_reached : ∀ n, s.found.Lists n → a.Reaches e n
  unread_reached : ∀ n ∈ unread, TypeExpr.isBuiltin n = false → a.Reaches e n
  pending_held : ∀ q ∈ s.pending, s.Holds a e q
  covered : ∀ q, s.Holds a e q → q ∈ s.pending ∨
    ∀ n, q.Occurs n → TypeExpr.isBuiltin n = false → s.found.Lists n ∨ n ∈ unread

namespace Invariant

variable {a : Adapter} {e : TypeExpr} {s t : Search}

theorem start (a : Adapter) (e : TypeExpr) : Invariant a e [] (Search.start e) where
  placed := Dependencies.placed_empty a
  listed_reached n hn := absurd hn (Dependencies.not_lists_empty n)
  unread_reached n hn := absurd hn List.not_mem_nil
  pending_held q hq := Or.inl (List.mem_singleton.mp hq)
  covered q hq := by
    rcases hq with rfl | ⟨n, hn, _⟩
    · exact Or.inl List.mem_cons_self
    · exact absurd hn (Dependencies.not_lists_empty n)

theorem note {n : String} {unread : List String} (h : Invariant a e (n :: unread) s) :
    Invariant a e unread (s.note a n) := by
  have hnoted := noted_note a s n
  have hlists : ∀ {m}, (s.note a n).found.Lists m ↔
      s.found.Lists m ∨ m = n ∧ TypeExpr.isBuiltin n = false := hnoted.lists_iff
  have hgrow : ∀ q, s.Holds a e q → (s.note a n).Holds a e q := by
    rintro q (rfl | ⟨m, hm, hd⟩)
    · exact Or.inl rfl
    · exact Or.inr ⟨m, hlists.mpr (Or.inl hm), hd⟩
  refine ⟨hnoted.placed h.placed, ?_, ?_, ?_, ?_⟩
  · intro m hm
    rcases hlists.mp hm with hm | ⟨rfl, hb⟩
    · exact h.listed_reached m hm
    · exact h.unread_reached m List.mem_cons_self hb
  · intro m hm hb
    exact h.unread_reached m (List.mem_cons_of_mem _ hm) hb
  · intro q hq
    rcases hnoted.pending_cases hq with hq | ⟨hb, hd⟩
    · exact hgrow q (h.pending_held q hq)
    · exact Or.inr ⟨n, hlists.mpr (Or.inr ⟨rfl, hb⟩), hd⟩
  · -- Only the definition of the recorded name is held anew, and it is pending.
    intro q hq
    have hold : s.Holds a e q ∨ q ∈ (s.note a n).pending := by
      rcases hq with rfl | ⟨m, hm, hd⟩
      · exact Or.inl (Or.inl rfl)
      · rcases hlists.mp hm with hm | ⟨rfl, hb⟩
        · exact Or.inl (Or.inr ⟨m, hm, hd⟩)
        · rcases hnoted.body_pending hb hd with hp | hm
          · exact Or.inr hp
          · exact Or.inl (Or.inr ⟨m, hm, hd⟩)
    rcases hold with hold | hp
    · rcases h.covered q hold with hp | hc
      · exact Or.inl (hnoted.mem_pending_of_mem hp)
      · refine Or.inr fun m hm hb => ?_
        rcases hc m hm hb with hl | hu
        · exact Or.inl (hlists.mpr (Or.inl hl))
        · rcases List.mem_cons.mp hu with rfl | hu
          · exact Or.inl (hlists.mpr (Or.inr ⟨rfl, hb⟩))
          · exact Or.inr hu
    · exact Or.inl hp

theorem foldl_note {unread : List String} (h : Invariant a e unread s) :
    Invariant a e [] (unread.foldl (Search.note a) s) := by
  induction unread generalizing s with
  | nil => exact h
  | cons n unread ih => exact ih h.note

/-- Taking an expression in hand leaves all of its names to be recorded. -/
theorem pop {q : TypeExpr} {rest : List TypeExpr} (h : Invariant a e [] s)
    (hp : s.pending = q :: rest) : Invariant a e q.names { s with pending := rest } := by
  refine ⟨h.placed, h.listed_reached, ?_, ?_, ?_⟩
  · intro n hn hb
    have ho : q.Occurs n := (TypeExpr.mem_names_iff q).mp hn
    rcases h.pending_held q (by simp [hp]) with rfl | ⟨via, hv, hd⟩
    · exact Reaches.here ho hb
    · exact Reaches.through (h.listed_reached via hv) hd ho hb
  · intro r hr
    exact h.pending_held r (by simp [hp, hr])
  · intro r hr
    rcases h.covered r hr with hr | hc
    · rw [hp] at hr
      rcases List.mem_cons.mp hr with rfl | hr
      · exact Or.inr fun n hn _ => Or.inr ((TypeExpr.mem_names_iff r).mpr hn)
      · exact Or.inl hr
    · refine Or.inr fun n hn hb => ?_
      rcases hc n hn hb with hl | hu
      · exact Or.inl hl
      · exact absurd hu List.not_mem_nil

/-- Every step of the search keeps the invariant. -/
theorem step (hst : s.step? a = some t) (h : Invariant a e [] s) : Invariant a e [] t := by
  unfold step? at hst
  split at hst
  · cases hst
  · next q rest hp =>
      obtain rfl := Option.some.inj hst
      exact (h.pop hp).foldl_note

/-- Where nothing is left to read, the listed names are the names reached. -/
theorem lists_iff_reaches (h : Invariant a e [] s) (hst : s.step? a = none) {n : String} :
    s.found.Lists n ↔ a.Reaches e n := by
  have hp : s.pending = [] := step?_eq_none_iff.mp hst
  have hclosed : ∀ q, s.Holds a e q → ∀ n, q.Occurs n → TypeExpr.isBuiltin n = false →
      s.found.Lists n := by
    intro q hq n hn hb
    rcases h.covered q hq with hq | hc
    · simp [hp] at hq
    · simpa using hc n hn hb
  constructor
  · exact h.listed_reached n
  · intro hr
    induction hr with
    | here ho hb => exact hclosed e (Or.inl rfl) _ ho hb
    | through _ hd ho hb ih => exact hclosed _ (Or.inr ⟨_, ih, hd⟩) _ ho hb

end Invariant

/-- A search ends in a state without a step, and that state has every property
that the steps keep. -/
theorem exists_final {a : Adapter} {P : Search → Prop}
    (hstep : ∀ s t, s.step? a = some t → P s → P t) {s : Search} (hs : P s) :
    ∃ t, t.step? a = none ∧ P t ∧ run a s = t.found := by
  induction s using run.induct a with
  | case1 s h => exact ⟨s, h, hs, run_of_step?_eq_none h⟩
  | case2 s t h ih =>
      obtain ⟨u, hu, hpu, hrun⟩ := ih (hstep s t h hs)
      exact ⟨u, hu, hpu, (run_of_step?_eq_some h).trans hrun⟩

end Search

variable (a : Adapter) (e : TypeExpr)

/-- The dependencies list the names reached, each in its place. -/
theorem dependencies_placed_and_lists :
    (a.dependencies e).Placed a ∧ ∀ n, (a.dependencies e).Lists n ↔ a.Reaches e n := by
  obtain ⟨t, hfinal, hinv, hrun⟩ := Search.exists_final
    (P := Search.Invariant a e []) (fun _ _ => Search.Invariant.step) (Search.Invariant.start a e)
  rw [dependencies, hrun]
  exact ⟨hinv.placed, fun n => hinv.lists_iff_reaches hfinal⟩

end Adapter

end DialectTypes
