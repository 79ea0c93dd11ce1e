import DialectTypes.Proofs.Readers
import Mathlib.Data.List.Forall2

/-!
# What readers accept

A reader of a record looks at the members under the names of its fields and at
nothing else, as long as the document is readable: its keys have values, its text
goes to its end, and it is not nested too deep. Each field may stand once. A sequence
is seen as the table that has its items under the names of the fields. For each way
to combine readers it is said here exactly when a value is read, in terms of the
values that a document has under its keys.
-/

namespace DialectTypes

namespace Document

/-- The members of a table; nothing else has members. -/
def members : Document → List (Option String × Document)
  | object ms _ => ms
  | _ => []

/-- The values that a document has under a key, in their order. -/
def values (d : Document) (key : String) : List Document :=
  (d.members.filter fun m => m.1 = some key).map Prod.snd

theorem values_nil (closed : Bool) (key : String) : (object [] closed).values key = [] := rfl

theorem values_cons (k : Option String) (v : Document) (ms : List (Option String × Document))
    (closed : Bool) (key : String) :
    (object ((k, v) :: ms) closed).values key =
      if k = some key then v :: (object ms closed).values key
      else (object ms closed).values key := by
  by_cases h : k = some key <;> simp [values, members, h]

theorem mem_values_iff {ms : List (Option String × Document)} {closed : Bool} {key : String}
    {v : Document} : v ∈ (object ms closed).values key ↔ (some key, v) ∈ ms := by
  simp [values, members, and_comm]

/-- The document has the key once, with a value that satisfies the condition. -/
def Has (d : Document) (key : String) (P : Document → Prop) : Prop :=
  ∃ v, d.values key = [v] ∧ P v

/-- The document does not have the key, or has it once with null. -/
def Omits (d : Document) (key : String) : Prop :=
  d.values key = [] ∨ d.Has key (· = .null)

/-- A document as a table. A sequence of no more items than there are names has them under
the names, one after another. -/
def tabled (names : List String) : Document → Document
  | array ds closed =>
    if ds.length ≤ names.length then object ((names.map some).zip ds) closed
    else array ds closed
  | d => d

theorem has_eq_iff {d v : Document} {key : String} : d.Has key (· = v) ↔ d.values key = [v] := by
  simp [Has]

theorem has_congr {d : Document} {key : String} {P Q : Document → Prop}
    (h : ∀ v ∈ d.values key, (P v ↔ Q v)) : d.Has key P ↔ d.Has key Q :=
  exists_congr fun v => and_congr_right fun hv => h v (hv ▸ List.mem_singleton_self v)

/-- Two things that are said of the value under one key are said of the same value. -/
theorem Has.both {d : Document} {key : String} {P Q : Document → Prop} (hp : d.Has key P)
    (hq : d.Has key Q) : ∃ v, P v ∧ Q v := by
  obtain ⟨v, hv, hp⟩ := hp
  obtain ⟨w, hw, hq⟩ := hq
  obtain rfl : v = w := List.singleton_inj.mp (hv.symm.trans hw)
  exact ⟨v, hp, hq⟩

theorem exists_member_of_mem_values {d v : Document} {key : String} (h : v ∈ d.values key) :
    ∃ m ∈ d.members, m.2 = v := by
  obtain ⟨m, hm, rfl⟩ := List.mem_map.mp h
  exact ⟨m, List.mem_of_mem_filter hm, rfl⟩

section Readable

mutual

theorem intact_of_readable : ∀ (d : Document) {room : Nat}, d.readable room = true →
    d.intact = true
  | null, _, _ | bool _, _, _ | number _, _, _ | string _, _, _ => rfl
  | array ds _, room + 1, h => by
      simp only [readable, Bool.and_eq_true] at h
      simp [intact, h.1, intactItems_of_readableItems ds h.2]
  | object ms _, room + 1, h => by
      simp only [readable, Bool.and_eq_true] at h
      simp [intact, h.1, intactMembers_of_readableMembers ms h.2]

theorem intactItems_of_readableItems : ∀ (ds : List Document) {room : Nat},
    readableItems room ds = true → intactItems ds = true
  | [], _, _ => rfl
  | d :: ds, _, h => by
      simp only [readableItems, Bool.and_eq_true] at h
      simp [intactItems, intact_of_readable d h.1, intactItems_of_readableItems ds h.2]

theorem intactMembers_of_readableMembers : ∀ (ms : List (Option String × Document)) {room : Nat},
    readableMembers room ms = true → intactMembers ms = true
  | [], _, _ => rfl
  | (_, d) :: ms, _, h => by
      simp only [readableMembers, Bool.and_eq_true] at h
      simp [intactMembers, intact_of_readable d h.1.2, intactMembers_of_readableMembers ms h.2]

end

mutual

/-- More room does not make a document less readable. -/
theorem readable_succ : ∀ (d : Document) {room : Nat}, d.readable room = true →
    d.readable (room + 1) = true
  | null, _, _ | bool _, _, _ => rfl
  | number _, _, h | string _, _, h => h
  | array ds _, room + 1, h => by
      simp only [readable, Bool.and_eq_true] at h
      simp only [readable, Bool.and_eq_true]
      exact ⟨h.1, readableItems_succ ds h.2⟩
  | object ms _, room + 1, h => by
      simp only [readable, Bool.and_eq_true] at h
      simp only [readable, Bool.and_eq_true]
      exact ⟨h.1, readableMembers_succ ms h.2⟩

theorem readableItems_succ : ∀ (ds : List Document) {room : Nat},
    readableItems room ds = true → readableItems (room + 1) ds = true
  | [], _, _ => rfl
  | d :: ds, _, h => by
      simp only [readableItems, Bool.and_eq_true] at h
      simp [readableItems, readable_succ d h.1, readableItems_succ ds h.2]

theorem readableMembers_succ : ∀ (ms : List (Option String × Document)) {room : Nat},
    readableMembers room ms = true → readableMembers (room + 1) ms = true
  | [], _, _ => rfl
  | (_, d) :: ms, _, h => by
      simp only [readableMembers, Bool.and_eq_true] at h
      simp [readableMembers, h.1.1, readable_succ d h.1.2, readableMembers_succ ms h.2]

end

theorem readable_object_succ_iff {ms : List (Option String × Document)} {closed : Bool}
    {room : Nat} :
    (object ms closed).readable (room + 1) = true ↔
      closed = true ∧ ∀ m ∈ ms, m.1.isSome = true ∧ m.2.readable room = true := by
  simp [readable, readableMembers_iff]

/-- The values in a readable table are readable, with one level less of room. -/
theorem readable_of_mem_values {d v : Document} {room : Nat} {key : String}
    (h : d.readable (room + 1) = true) (hv : v ∈ d.values key) : v.readable room = true := by
  cases d with
  | object ms closed =>
      obtain ⟨m, hm, rfl⟩ := exists_member_of_mem_values hv
      exact ((readable_object_succ_iff.mp h).2 m hm).2
  | _ => simp [values, members] at hv

/-- A readable table goes to its end, and so do its members. -/
theorem closed_of_readable {ms : List (Option String × Document)} {closed : Bool} {room : Nat}
    (h : (object ms closed).readable room = true) :
    closed = true ∧ ∀ m ∈ ms, m.1.isSome = true ∧ m.2.intact = true := by
  cases room with
  | zero => cases h
  | succ room =>
      obtain ⟨hclosed, hms⟩ := readable_object_succ_iff.mp h
      exact ⟨hclosed, fun m hm => (hms m hm).imp_right (intact_of_readable m.2)⟩

theorem readable_tabled {d : Document} {room : Nat} (names : List String)
    (h : d.readable room = true) : (d.tabled names).readable room = true := by
  cases d with
  | array ds closed =>
      cases room with
      | zero => cases h
      | succ room =>
          rw [tabled]
          split
          · simp only [readable, Bool.and_eq_true, readableItems_iff] at h
            refine readable_object_succ_iff.mpr ⟨h.1, ?_⟩
            rintro ⟨key, v⟩ hm
            obtain ⟨hkey, hv⟩ := List.of_mem_zip hm
            obtain ⟨name, -, rfl⟩ := List.mem_map.mp hkey
            exact ⟨rfl, h.2 v hv⟩
          · exact h
  | _ => exact h

theorem readable_tail {d : Document} {room : Nat} (h : d.readable room = true) :
    d.tail.readable room = true := by
  cases d with
  | array ds closed =>
      cases ds with
      | nil => exact h
      | cons d ds =>
          cases room with
          | zero => cases h
          | succ room =>
              simp only [readable, readableItems, Bool.and_eq_true] at h
              simp [tail, readable, h.1, h.2.2]
  | _ => exact h

theorem readable_of_mem_items {ds : List Document} {d : Document} {room : Nat}
    (h : (array ds true).readable room = true) (hd : d ∈ ds) : d.readable room = true := by
  cases room with
  | zero => cases h
  | succ room =>
      rw [readable, Bool.true_and] at h
      exact readable_succ d (readableItems_iff.mp h d hd)

end Readable

end Document

namespace Reader

variable {α β σ : Type}

theorem bind_eq_ok_iff {result : Except ReadError α} {next : α → Except ReadError β} {b : β} :
    (result >>= next) = .ok b ↔ ∃ a, result = .ok a ∧ next a = .ok b := by
  cases result with
  | error e => exact ⟨nofun, nofun⟩
  | ok a => simp [ok_bind]

theorem map_eq_ok_iff {result : Except ReadError α} {f : α → β} {b : β} :
    (f <$> result) = .ok b ↔ ∃ a, result = .ok a ∧ f a = b := by
  cases result with
  | error e => exact ⟨nofun, nofun⟩
  | ok a => simp

@[simp] theorem pure_eq_ok_iff {a b : α} : (pure a : Except ReadError α) = .ok b ↔ a = b :=
  ⟨Except.ok.inj, congrArg _⟩

@[simp] theorem ended_eq_ok_iff {closed : Bool} {a b : α} :
    ended closed a = .ok b ↔ closed = true ∧ a = b := by
  cases closed <;> simp [ended]

@[simp] theorem skip_eq_ok_iff {d : Document} {a b : α} :
    skip d a = .ok b ↔ d.intact = true ∧ a = b :=
  ended_eq_ok_iff

@[simp] theorem mismatch_ne_ok (expected : Expected) (d : Document) (a : α) :
    mismatch expected d ≠ .ok a :=
  returns_mismatch (P := fun _ => False) expected d a

theorem string_eq_ok_iff {d : Document} {s : String} :
    string d = .ok s ↔ d = .string (some s) := by
  cases d with
  | string value => cases value <;> simp [string]
  | _ => simp [string]

theorem required_eq_ok_iff {missing : ReadError} {o : Option α} {a : α} :
    required missing o = .ok a ↔ o = some a := by
  cases o <;> simp [required]

theorem built_eq_ok_iff {result : Except ConstructionError α} {a : α} :
    built result = .ok a ↔ result = .ok a := by
  cases result <;> simp [built]

theorem oneOf_eq_ok_iff {ofName? : String → Option α} {known : List String} {s : String} {a : α} :
    oneOf ofName? known s = .ok a ↔ ofName? s = some a := by
  unfold oneOf
  cases ofName? s <;> simp

/-- A value may be null if it may be missing. -/
theorem optional_eq_ok_iff {read : Reader α} (hnull : ∀ a, read .null ≠ .ok a) {d : Document}
    {o : Option α} :
    optional read d = .ok o ↔ (d = .null ∧ o = none) ∨ ∃ a, read d = .ok a ∧ o = some a := by
  cases d with
  | null => simp [optional, hnull, @eq_comm _ o]
  | _ => simp [optional, map_eq_ok_iff, @eq_comm _ o]

theorem items_eq_ok_iff {read : Reader α} {S : Document → α → Prop} {ds : List Document}
    {as : List α} (h : ∀ d ∈ ds, ∀ a, read d = .ok a ↔ S d a) :
    items read ds = .ok as ↔ List.Forall₂ S ds as := by
  induction ds generalizing as with
  | nil => cases as <;> simp [items]
  | cons d ds ih =>
      obtain ⟨hd, hds⟩ := List.forall_mem_cons.mp h
      cases as with
      | nil => simp [items, bind_eq_ok_iff, map_eq_ok_iff]
      | cons a as => simp [items, bind_eq_ok_iff, map_eq_ok_iff, hd, ih hds]

theorem list_eq_ok_iff {read : Reader α} {d : Document} {as : List α} :
    list read d = .ok as ↔ ∃ ds, d = .array ds true ∧ items read ds = .ok as := by
  cases d with
  | array ds closed => cases closed <;> simp [list, bind_eq_ok_iff]
  | _ => simp [list]

section Fields

/-- The values under the name of a field turn what was read of it before into what is
read of it after: there is one value at most, and it is read. -/
inductive Fills (read : Reader α) : Option α → List Document → Option α → Prop where
  | keep (old : Option α) : Fills read old [] old
  | fill {d : Document} {a : α} (h : read d = .ok a) : Fills read none [d] (some a)

variable {read : Reader α}

@[simp] theorem fills_nil_iff {old new : Option α} : Fills read old [] new ↔ old = new := by
  constructor
  · rintro ⟨⟩
    rfl
  · rintro rfl
    exact .keep old

theorem fills_cons_iff {name : String} {old new : Option α} {d : Document} {ds : List Document} :
    Fills read old (d :: ds) new ↔ ∃ o, once name old read d = .ok o ∧ Fills read o ds new := by
  constructor
  · rintro ⟨⟩
    next a h => exact ⟨some a, by simp [once, h], .keep _⟩
  · rintro ⟨o, ho, hds⟩
    cases old with
    | some _ => cases ho
    | none =>
        obtain ⟨a, ha, rfl⟩ := map_eq_ok_iff.mp ho
        cases hds
        exact .fill ha

theorem fills_some_iff {ds : List Document} {a : α} :
    Fills read none ds (some a) ↔ ∃ d, ds = [d] ∧ read d = .ok a := by
  constructor
  · rintro ⟨⟩
    next d h => exact ⟨d, rfl, h⟩
  · rintro ⟨d, rfl, h⟩
    exact .fill h

theorem fills_none_iff {ds : List Document} : Fills read none ds none ↔ ds = [] := by
  constructor
  · rintro ⟨⟩
    rfl
  · rintro rfl
    exact .keep none

theorem table_eq_ok_iff {other : Reader σ} {take : σ → String → Reader σ} {start s : σ}
    {d : Document} (hother : ∀ d, other d ≠ .ok s) :
    table other take start d = .ok s ↔
      ∃ ms, d = .object ms true ∧ members take ms start = .ok s := by
  cases d with
  | object ms closed => cases closed <;> simp [table, bind_eq_ok_iff]
  | _ => simp [table, hother]

/-- A record is read from the document as a table. -/
theorem fields_eq_ok_iff {m : Access} {f : Form} {take : σ → String → Reader σ} {start s : σ}
    {d : Document} :
    fields m f take start d = .ok s ↔
      ∃ ms, d.tabled f.fields = .object ms true ∧ members take ms start = .ok s := by
  cases d with
  | array ds closed =>
      by_cases hlength : ds.length ≤ f.fields.length
      · cases closed <;> simp [fields, Document.tabled, hlength, bind_eq_ok_iff]
      · simp [fields, Document.tabled, hlength, bind_eq_ok_iff]
  | _ => simp [fields, table_eq_ok_iff, Document.tabled]

/-- What the members of a readable table do together, one after another, if each of them
does one step. -/
theorem members_eq_ok_iff {take : σ → String → Reader σ}
    {R : List (Option String × Document) → σ → σ → Prop} (hnil : ∀ s t, R [] s t ↔ s = t)
    (hcons : ∀ key v ms s t, v.intact = true →
      (R ((some key, v) :: ms) s t ↔ ∃ r, take s key v = .ok r ∧ R ms r t))
    {ms : List (Option String × Document)}
    (hms : ∀ m ∈ ms, m.1.isSome = true ∧ m.2.intact = true) {s t : σ} :
    members take ms s = .ok t ↔ R ms s t := by
  induction ms generalizing s with
  | nil => simp [members, hnil]
  | cons m ms ih =>
      obtain ⟨key, v⟩ := m
      obtain ⟨⟨hkey, hv⟩, htail⟩ := List.forall_mem_cons.mp hms
      obtain ⟨key, rfl⟩ := Option.isSome_iff_exists.mp hkey
      simp only [members_cons, bind_eq_ok_iff, hcons key v ms s t hv, ih htail]

theorem members_once_iff {name : String} {ms : List (Option String × Document)}
    (hms : ∀ m ∈ ms, m.1.isSome = true ∧ m.2.intact = true) {old new : Option α} :
    members (fun old key d => if key = name then once name old read d else skip d old) ms old =
        .ok new ↔
      Fills read old ((Document.object ms true).values name) new := by
  refine members_eq_ok_iff
    (R := fun ms old new => Fills read old ((Document.object ms true).values name) new) ?_ ?_ hms
  · simp [Document.values_nil]
  · intro key v ms old new hv
    by_cases hk : key = name
    · subst hk
      simp [Document.values_cons, @fills_cons_iff _ read key]
    · simp [Document.values_cons, hk, hv]

/-- A field is read if it stands once and its value is read. -/
theorem field_eq_ok_iff {m : Access} {f : Form} {name : String} {d : Document} {room : Nat}
    (hd : d.readable room = true) {a : α} :
    field m f name read d = .ok a ↔ (d.tabled f.fields).Has name (read · = .ok a) := by
  have htable := Document.readable_tabled f.fields hd
  simp only [field, bind_eq_ok_iff, required_eq_ok_iff, fields_eq_ok_iff]
  generalize d.tabled f.fields = t at htable
  cases t with
  | object ms closed =>
      obtain ⟨rfl, hms⟩ := Document.closed_of_readable htable
      simp [members_once_iff hms, fills_some_iff, Document.Has]
  | _ => simp [Document.Has, Document.values, Document.members]

end Fields

end Reader

end DialectTypes
