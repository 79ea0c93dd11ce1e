import DialectTypes.Reading

/-!
# What readers return

Two kinds of facts about readers are collected here, one for each way to combine
them. The first kind carries a condition on the value from the parts of a reader
to the whole: whatever is returned satisfies it, for every document. The second
kind says what is read from a document that is written member by member.
-/

namespace DialectTypes

namespace Reader

variable {α β σ : Type}

section Conditions

/-- Whatever value there is satisfies the condition. -/
def Returns (P : α → Prop) (result : Except ReadError α) : Prop :=
  ∀ a, result = .ok a → P a

variable {P : α → Prop} {Q : β → Prop}

theorem returns_ok {a : α} (h : P a) : Returns P (.ok a) := by
  rintro b ⟨⟩
  exact h

theorem returns_error (e : ReadError) : Returns P (.error e) := by
  rintro b ⟨⟩

theorem returns_true (result : Except ReadError α) : Returns (fun _ => True) result :=
  fun _ _ => trivial

theorem Returns.bind {result : Except ReadError α} {next : α → Except ReadError β}
    (h : Returns P result) (hn : ∀ a, P a → Returns Q (next a)) :
    Returns Q (result >>= next) := by
  intro b hb
  cases result with
  | error e => cases hb
  | ok a => exact hn a (h a rfl) b hb

theorem Returns.map {result : Except ReadError α} {f : α → β}
    (h : Returns P result) (hf : ∀ a, P a → Q (f a)) : Returns Q (f <$> result) := by
  intro b hb
  cases result with
  | error e => cases hb
  | ok a =>
      cases hb
      exact hf a (h a rfl)

theorem returns_mismatch (expected : Expected) (d : Document) :
    Returns P (mismatch expected d) := by
  unfold mismatch
  cases found d with
  | ok f => exact returns_error _
  | error e => exact returns_error _

theorem returns_ended {closed : Bool} {a : α} (h : P a) : Returns P (ended closed a) := by
  unfold ended
  split
  · exact returns_ok h
  · exact returns_error _

theorem returns_skip {d : Document} {a : α} (h : P a) : Returns P (skip d a) :=
  returns_ended h

theorem returns_optional {read : Reader α} (h : ∀ d, Returns P (read d)) (d : Document) :
    Returns (fun o => ∀ a ∈ o, P a) (optional read d) := by
  unfold optional
  split
  · exact returns_ok (by simp)
  · exact (h _).map (by simp)

theorem returns_items {read : Reader α} (h : ∀ d, Returns P (read d)) (ds : List Document) :
    Returns (fun as => ∀ a ∈ as, P a) (items read ds) := by
  induction ds with
  | nil => exact returns_ok (by simp)
  | cons d ds ih =>
      refine (h d).bind fun a ha => ih.bind fun as has => returns_ok ?_
      intro b hb
      rcases List.mem_cons.mp hb with rfl | hb
      · exact ha
      · exact has b hb

theorem returns_list {read : Reader α} (h : ∀ d, Returns P (read d)) (d : Document) :
    Returns (fun as => ∀ a ∈ as, P a) (list read d) := by
  unfold list
  split
  · exact (returns_items h _).bind fun as has => returns_ended has
  · exact returns_mismatch _ _

variable {I : σ → Prop} {take : σ → String → Reader σ}

/-- What each member keeps of what is read so far, all of them keep. -/
theorem returns_members (ht : ∀ s key d, I s → Returns I (take s key d))
    (ms : List (Option String × Document)) {s : σ} (hs : I s) :
    Returns I (members take ms s) := by
  induction ms generalizing s with
  | nil => exact returns_ok hs
  | cons m ms ih =>
      obtain ⟨key, d⟩ := m
      cases key with
      | none => exact returns_error _
      | some key => exact (ht s key d hs).bind fun t hi => ih hi

theorem returns_table {other : Reader σ} (ho : ∀ d, Returns I (other d))
    (ht : ∀ s key d, I s → Returns I (take s key d)) {start : σ} (hs : I start) (d : Document) :
    Returns I (table other take start d) := by
  unfold table
  split
  · exact (returns_members ht _ hs).bind fun t hi => returns_ended hi
  · exact ho _

theorem returns_fields (m : Access) (f : Form) (ht : ∀ s key d, I s → Returns I (take s key d))
    {start : σ} (hs : I start) (d : Document) : Returns I (fields m f take start d) := by
  unfold fields
  split
  · refine (returns_members ht _ hs).bind fun t hi => ?_
    split
    · exact returns_ended hi
    · exact returns_error _
  · exact returns_table (returns_mismatch _) ht hs _

theorem returns_once {read : Reader α} (h : ∀ d, Returns P (read d)) (name : String)
    (old : Option α) (d : Document) : Returns (fun o => ∀ a ∈ o, P a) (once name old read d) := by
  unfold once
  split
  · exact returns_error _
  · exact (h d).map (by simp)

theorem returns_required {missing : ReadError} {o : Option α} (h : ∀ a ∈ o, P a) :
    Returns P (required missing o) := by
  cases o with
  | none => exact returns_error _
  | some a => exact returns_ok (h a rfl)

theorem returns_field {read : Reader α} (h : ∀ d, Returns P (read d)) (m : Access) (f : Form)
    (name : String) (d : Document) : Returns P (field m f name read d) := by
  refine (returns_fields (I := fun o => ∀ a ∈ o, P a) m f ?_ (by simp) d).bind
    fun o ho => returns_required ho
  intro old key d hold
  split
  · exact returns_once h name old d
  · exact returns_skip hold

theorem returns_registry {read : Reader α} (h : ∀ d, Returns P (read d)) (d : Document) :
    Returns (fun r => ∀ n a, r.get? n = some a → P a) (registry read d) := by
  refine returns_table (returns_mismatch .map) ?_ (by simp) d
  intro r key d hr
  refine (h d).bind fun v hv => returns_ok ?_
  intro n a ha
  rw [Registry.get?_insert] at ha
  split at ha
  · cases ha
    exact hv
  · exact hr n a ha

theorem returns_built {result : Except ConstructionError α} (h : ∀ a, result = .ok a → P a) :
    Returns P (built result) := by
  cases result with
  | error e => exact returns_error _
  | ok a => exact returns_ok (h a rfl)

theorem returns_whole {read : Reader α} (h : ∀ d, Returns P (read d)) (s : Source) :
    Returns P (whole read s) :=
  (h s.document).bind fun _ ha => returns_ended ha

end Conditions

section Written

theorem ok_bind (a : α) (next : α → Except ReadError β) : (Except.ok a >>= next) = next a := rfl

@[simp] theorem ok_map (f : α → β) (a : α) :
    (f <$> Except.ok a : Except ReadError β) = .ok (f a) := rfl

theorem items_map {read : Reader α} {write : α → Document} {as : List α}
    (h : ∀ a ∈ as, read (write a) = .ok a) : items read (as.map write) = .ok as := by
  induction as with
  | nil => rfl
  | cons a as ih =>
      rw [List.map_cons, items, h a List.mem_cons_self,
        ih fun b hb => h b (List.mem_cons_of_mem _ hb)]
      rfl

theorem list_map {read : Reader α} {write : α → Document} {as : List α}
    (h : ∀ a ∈ as, read (write a) = .ok a) : list read (.array (as.map write) true) = .ok as := by
  rw [list, items_map h]
  rfl

theorem members_cons (take : σ → String → Reader σ) (key : String) (d : Document)
    (ms : List (Option String × Document)) (s : σ) :
    members take ((some key, d) :: ms) s = (take s key d >>= members take ms) := rfl

theorem members_append (take : σ → String → Reader σ)
    (ms ns : List (Option String × Document)) (s : σ) :
    members take (ms ++ ns) s = (members take ms s >>= members take ns) := by
  induction ms generalizing s with
  | nil => rfl
  | cons m ms ih =>
      obtain ⟨key, d⟩ := m
      cases key with
      | none => rfl
      | some key =>
          rw [List.cons_append, members_cons, members_cons]
          cases take s key d with
          | error e => rfl
          | ok t => exact ih t

/-- Members that leave what is read so far as it is have no effect. -/
theorem members_eq_self {take : σ → String → Reader σ} {s : σ}
    {ms : List (Option String × Document)}
    (h : ∀ m ∈ ms, ∃ key, m.1 = some key ∧ take s key m.2 = .ok s) :
    members take ms s = .ok s := by
  induction ms with
  | nil => rfl
  | cons m ms ih =>
      obtain ⟨key, hk, ht⟩ := h m List.mem_cons_self
      obtain ⟨_, d⟩ := m
      cases hk
      rw [members_cons, ht]
      exact ih fun n hn => h n (List.mem_cons_of_mem _ hn)

/-- A table whose text goes to its end is read by its members. -/
theorem fields_object (m : Access) (f : Form) (take : σ → String → Reader σ) (start : σ)
    (ms : List (Option String × Document)) :
    fields m f take start (.object ms true) = members take ms start := by
  change (members take ms start >>= ended true) = _
  cases members take ms start with
  | error e => rfl
  | ok s => rfl

/-- A field is read where it stands if every other member has another name. -/
theorem field_object (m : Access) (f : Form) {name : String} (read : Reader α)
    {before after : List (Option String × Document)} (d : Document)
    (hb : ∀ m ∈ before, ∃ key, m.1 = some key ∧ key ≠ name ∧ m.2.intact = true)
    (ha : ∀ m ∈ after, ∃ key, m.1 = some key ∧ key ≠ name ∧ m.2.intact = true) :
    field m f name read (.object (before ++ (some name, d) :: after) true) = read d := by
  have hpass : ∀ (old : Option α) (ms : List (Option String × Document)),
      (∀ m ∈ ms, ∃ key, m.1 = some key ∧ key ≠ name ∧ m.2.intact = true) →
      members (fun old key d => if key = name then once name old read d else skip d old)
        ms old = .ok old := by
    intro old ms hms
    apply members_eq_self
    intro m hm
    obtain ⟨key, hk, hne, hi⟩ := hms m hm
    exact ⟨key, hk, by simp [hne, skip, ended, hi]⟩
  rw [field, fields_object, members_append, hpass none before hb, ok_bind, members_cons,
    if_pos rfl, once]
  cases read d with
  | error e => rfl
  | ok a =>
      have hdone := hpass (some a) after ha
      change (members _ after (some a) >>= required _) = _
      rw [hdone]
      rfl

theorem members_insert {read : Reader α} {write : α → Document} {es : List (String × α)}
    (h : ∀ e ∈ es, read (write e.2) = .ok e.2) (r : Registry α) :
    members (fun r key d => do return r.insert key (← read d))
      (es.map fun e => (some e.1, write e.2)) r =
      .ok (es.foldl (fun r e => r.insert e.1 e.2) r) := by
  induction es generalizing r with
  | nil => rfl
  | cons e es ih =>
      rw [List.map_cons, members_cons, h e List.mem_cons_self, ok_bind]
      exact ih (fun f hf => h f (List.mem_cons_of_mem _ hf)) (r.insert e.1 e.2)

/-- A registry is read from the members that hold its entries. -/
theorem registry_entries {read : Reader α} (write : α → Document) {r : Registry α}
    (h : ∀ e ∈ r.entries, read (write e.2) = .ok e.2) :
    registry read (.object (r.entries.map fun e => (some e.1, write e.2)) true) = .ok r := by
  have hunion : Registry.empty.union r = r := by
    ext n
    simp [Registry.get?_union]
  rw [registry, table, members_insert h, ok_bind]
  exact congrArg Except.ok hunion

end Written

end Reader

end DialectTypes
