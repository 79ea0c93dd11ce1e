import DialectTypes.Proofs.Acceptance
import DialectTypes.Proofs.Nesting

/-!
# Readers that refuse a part

A reader that is made of others refuses a document with an error if a part of it is
refused with the error, what stands before the part is read, and nothing is tried
instead. That the rest is read is known from a document that has something else in
place of the part, so both are one document with a hole that is filled in two ways.
There is one rule for each way to combine readers. A field of a record has its hole
under the name of the field, or in a sequence where the value of the field stands.
-/

namespace DialectTypes

namespace Document

/-- A hole in a document, with everything that is around it. -/
inductive Hole where
  | here
  | under (before after : List (Option String × Document)) (key : String) (inner : Hole)
  | among (before after : List Document) (inner : Hole)

/-- The document in which the hole is filled with the given one. -/
def Hole.fill : Hole → Document → Document
  | here, d => d
  | under before after key inner, d => .object (before ++ (some key, inner.fill d) :: after) true
  | among before after inner, d => .array (before ++ inner.fill d :: after) true

/-- The second hole is the first with a record around it, in which it is the value of a
field. A sequence has the values of the fields in the order of their names. -/
inductive Hole.InField (names : List String) (name : String) (p : Hole) : Hole → Prop
  | under (before after : List (Option String × Document)) :
      InField names name p (.under before after name p)
  | among {before : List Document} (h : names[before.length]? = some name)
      (after : List Document) : InField names name p (.among before after p)

/-- Every scalar of the document has a value, so it can be read where there is room. -/
def Legible (d : Document) : Prop :=
  ∃ room, d.readable room = true

section Filling

variable {before after : List (Option String × Document)} {first last : List Document}
  {key : String} {v w : Document} {room : Nat} {p q : Hole} {names : List String}

theorem nesting_lt_fill_under : (p.fill v).nesting < ((p.under before after key).fill v).nesting := by
  apply Nat.lt_succ_of_le
  exact nesting_le_memberNesting (m := (some key, p.fill v)) (by simp)

theorem nesting_lt_fill_among : (p.fill v).nesting < ((p.among first last).fill v).nesting := by
  apply Nat.lt_succ_of_le
  exact nesting_le_itemNesting (by simp)

/-- A document is readable with any legible document in its hole, as long as there is room
for it. -/
theorem Hole.readable_fill (hw : w.Legible) (h : (p.fill v).readable room = true)
    (hn : (p.fill w).nesting ≤ room) : (p.fill w).readable room = true := by
  induction p generalizing room with
  | here =>
      obtain ⟨least, hleast⟩ := hw
      exact readable_of_nesting_le w hleast hn
  | under before after key inner ih =>
      cases room with
      | zero => cases h
      | succ room =>
          have hinner := Nat.lt_of_lt_of_le nesting_lt_fill_under hn
          simp only [fill, readable_object_succ_iff, List.forall_mem_append,
            List.forall_mem_cons] at h ⊢
          obtain ⟨hclosed, hbefore, ⟨hkey, hv⟩, hafter⟩ := h
          exact ⟨hclosed, hbefore, ⟨hkey, ih hv (Nat.le_of_lt_succ hinner)⟩, hafter⟩
  | among before after inner ih =>
      cases room with
      | zero => cases h
      | succ room =>
          have hinner := Nat.lt_of_lt_of_le nesting_lt_fill_among hn
          simp only [fill, readable, Bool.true_and, readableItems_iff, List.forall_mem_append,
            List.forall_mem_cons] at h ⊢
          obtain ⟨hbefore, hv, hafter⟩ := h
          exact ⟨hbefore, ih hv (Nat.le_of_lt_succ hinner), hafter⟩

/-- What stands under one key does not matter for what is said of another. -/
theorem has_fill_under {other : String} {P : Document → Prop} (hne : key ≠ other)
    (h : ((p.under before after key).fill v).Has other P) :
    ((p.under before after key).fill w).Has other P := by
  simpa [Has, values, members, Hole.fill, List.filter_append, hne] using h

namespace Hole.InField

theorem nesting_lt (h : InField names key p q) (v : Document) :
    (p.fill v).nesting < (q.fill v).nesting := by
  cases h with
  | under before after => exact nesting_lt_fill_under
  | among _ after => exact nesting_lt_fill_among

theorem fill_ne_null (h : InField names key p q) (v : Document) : q.fill v ≠ .null := by
  cases h with
  | under before after => exact nofun
  | among _ after => exact nofun

/-- Behind the first field the hole is in what follows the field. -/
theorem exists_tail {first : String} (h : InField (first :: names) key p q)
    (hkey : key ≠ first) : ∃ q', InField names key p q' ∧ ∀ v, (q.fill v).tail = q'.fill v := by
  cases h with
  | under before after => exact ⟨_, .under before after, fun _ => rfl⟩
  | @among before hname after =>
      cases before with
      | nil => exact absurd (Option.some.inj hname).symm hkey
      | cons d before =>
          have hbehind : names[before.length]? = some key := hname
          exact ⟨_, .among hbehind after, fun _ => rfl⟩

end Hole.InField

/-- A sequence that is filled has the filled value under the name of its field. -/
theorem zip_fill {before : List Document} (h : names[before.length]? = some key)
    (after : List Document) : ∃ (front back : List (Option String × Document)), ∀ v,
      (names.map some).zip (before ++ v :: after) = front ++ (some key, v) :: back := by
  induction before generalizing names with
  | nil =>
      cases names with
      | nil => cases h
      | cons name names =>
          cases h
          exact ⟨[], (names.map some).zip after, fun _ => rfl⟩
  | cons d before ih =>
      cases names with
      | nil => cases h
      | cons name names =>
          obtain ⟨front, back, hzip⟩ := ih h
          refine ⟨(some name, d) :: front, back, fun v => ?_⟩
          rw [List.map_cons, List.cons_append, List.zip_cons_cons, hzip, List.cons_append]

end Filling

end Document

namespace Reader

open Document (Hole)

variable {α β σ : Type}

/-- Where the first document is read, the second is refused with the error. -/
def Refuses (read : Reader α) (err : ReadError) (d d' : Document) : Prop :=
  ∀ a, read d = .ok a → read d' = .error err

section Rules

variable {read : Reader α} {err : ReadError} {d d' v w : Document} {p q : Hole}

/-- What comes after a part that is refused is not reached. -/
theorem Refuses.bind (h : Refuses read err d d') (next : Document → α → Except ReadError β) :
    Refuses (fun d => read d >>= next d) err d d' := by
  intro b hb
  obtain ⟨a, ha, _⟩ := bind_eq_ok_iff.mp hb
  change read d' >>= next d' = .error err
  rw [h a ha]
  rfl

theorem Refuses.map (h : Refuses read err d d') (f : α → β) :
    Refuses (fun d => f <$> read d) err d d' := by
  intro b hb
  obtain ⟨a, ha, _⟩ := map_eq_ok_iff.mp hb
  change f <$> read d' = .error err
  rw [h a ha]
  rfl

/-- A value that is not null is read as if it could not be left out. -/
theorem Refuses.optional (h : Refuses read err d d') (hd : d ≠ .null) (hd' : d' ≠ .null) :
    Refuses (optional read) err d d' := by
  have hsome : ∀ c : Document, c ≠ .null → Reader.optional read c = some <$> read c := by
    intro c hc
    cases c with
    | null => exact absurd rfl hc
    | _ => rfl
  intro o ho
  rw [hsome d hd] at ho
  rw [hsome d' hd']
  exact h.map some o ho

theorem Refuses.once (h : Refuses read err d d') (name : String) (old : Option α) :
    Refuses (once name old read) err d d' := by
  cases old with
  | none => exact h.map some
  | some _ =>
      intro o ho
      cases ho

/-- A reader that reads a part once and puts it with the others refuses what the part is
refused for. -/
theorem Refuses.onceInto (h : Refuses read err d d') (name : String) (old : Option α)
    (put : Option α → β) {take : Reader β}
    (htake : ∀ c, take c = put <$> Reader.once name old read c) : Refuses take err d d' := by
  rw [funext htake]
  exact (h.once name old).map put

/-- The items before the refused one are read, and those after it are not reached. -/
theorem Refuses.items (h : Refuses read err d d') {before after : List Document} {as : List α}
    (hread : items read (before ++ d :: after) = .ok as) :
    items read (before ++ d' :: after) = .error err := by
  induction before generalizing as with
  | nil =>
      obtain ⟨a, ha, _⟩ := bind_eq_ok_iff.mp hread
      rw [List.nil_append, Reader.items, h a ha]
      rfl
  | cons c before ih =>
      obtain ⟨a, ha, hrest⟩ := bind_eq_ok_iff.mp hread
      obtain ⟨as, has, _⟩ := bind_eq_ok_iff.mp hrest
      rw [List.cons_append, Reader.items, ha, ok_bind, ih has]
      rfl

theorem Refuses.list (h : Refuses read err (p.fill v) (p.fill w)) (before after : List Document) :
    Refuses (list read) err ((p.among before after).fill v) ((p.among before after).fill w) := by
  intro as has
  obtain ⟨bs, hbs, _⟩ := bind_eq_ok_iff.mp has
  rw [Hole.fill, Reader.list, h.items hbs]
  rfl

/-- So it is with the members of a table, whatever was taken from those before. -/
theorem refuses_members {take : σ → String → Reader σ} {key : String}
    (h : ∀ s, Refuses (take s key) err d d') {before after : List (Option String × Document)}
    {s t : σ} (hread : members take (before ++ (some key, d) :: after) s = .ok t) :
    members take (before ++ (some key, d') :: after) s = .error err := by
  rw [members_append] at hread ⊢
  obtain ⟨r, hr, hrest⟩ := bind_eq_ok_iff.mp hread
  rw [members_cons] at hrest
  obtain ⟨q, hq, _⟩ := bind_eq_ok_iff.mp hrest
  rw [hr, ok_bind, members_cons, h r q hq]
  rfl

theorem refuses_table {take : σ → String → Reader σ} {key : String}
    (h : ∀ s, Refuses (take s key) err (p.fill v) (p.fill w)) (other : Reader σ) (start : σ)
    (before after : List (Option String × Document)) :
    Refuses (table other take start) err ((p.under before after key).fill v)
      ((p.under before after key).fill w) := by
  intro t ht
  obtain ⟨s, hs, _⟩ := bind_eq_ok_iff.mp ht
  rw [Hole.fill, table, refuses_members h hs]
  rfl

/-- A record is refused for a field, as a table and as a sequence. -/
theorem refuses_fields {f : Form} {take : σ → String → Reader σ} {name : String}
    (h : ∀ s, Refuses (take s name) err (p.fill v) (p.fill w)) (m : Access) (start : σ)
    (hq : p.InField f.fields name q) :
    Refuses (fields m f take start) err (q.fill v) (q.fill w) := by
  intro t ht
  cases hq with
  | under before after =>
      rw [Hole.fill, fields_object] at ht ⊢
      exact refuses_members h ht
  | among hname after =>
      obtain ⟨front, back, hzip⟩ := Document.zip_fill hname after
      rw [Hole.fill, fields, hzip] at ht ⊢
      obtain ⟨s, hs, _⟩ := bind_eq_ok_iff.mp ht
      rw [refuses_members h hs]
      rfl

theorem Refuses.field (h : Refuses read err (p.fill v) (p.fill w)) (m : Access) (f : Form)
    {name : String} (hq : p.InField f.fields name q) :
    Refuses (field m f name read) err (q.fill v) (q.fill w) := by
  refine Refuses.bind ?_ fun d => required (f.missing name d)
  refine refuses_fields ?_ m none hq
  intro old
  simpa using h.once name old

theorem Refuses.registry (h : Refuses read err (p.fill v) (p.fill w)) (name : String)
    (before after : List (Option String × Document)) :
    Refuses (registry read) err ((p.under before after name).fill v)
      ((p.under before after name).fill w) := by
  apply refuses_table
  intro r
  exact h.bind fun _ a => return r.insert name a

/-- A text is refused if the document that it denotes is. -/
theorem Refuses.whole (h : Refuses read err d d') {text text' : String}
    (hd : Json.Denotes text d) (hd' : Json.Denotes text' d')
    (hread : ∃ a, whole read (Json.source text) = .ok a) :
    whole read (Json.source text') = .error err := by
  obtain ⟨a, ha⟩ := hread
  rw [Json.source_of_denotes hd] at ha
  rw [Json.source_of_denotes hd']
  exact h.bind (fun _ a => ended true a) a ha

end Rules

end Reader

end DialectTypes
