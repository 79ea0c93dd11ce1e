import DialectTypes.Proofs.PropertyOrder
import DialectTypes.Proofs.Refusal
import DialectTypes.Proofs.Spelling

/-!
# Defects that surface

A union without members and an object that repeats a property name are refused when
they are built, and reading builds what it reads. So a text in which such a document
stands where an expression is expected is not read. The error is that of the refused
construction, however deep the document stands and whatever is around it. The document
and each one around it may be a table or a sequence; the induction is on the hole in
which the document stands.
-/

namespace DialectTypes

namespace TypeExpr

open Document (Hole)
open Reader

/-- The document has the form of an expression that cannot be built, for the given reason. -/
inductive Defective (m : Access) (w : Document) : ConstructionError → Prop where
  | emptyUnion (hk : Kind.union.Marks m w)
      (hm : (Kind.union.parts w).Has "members" (· = .array [] true)) : Defective m w .emptyUnion
  | duplicateProperty {ps : List (String × TypeExpr)} {n : String} (hk : Kind.object.Marks m w)
      (hp : (Kind.object.parts w).Has "properties" fun v =>
        ∃ ds, v = .array ds true ∧ SpellsProperties ds ps)
      (hn : FirstRepeated (ps.map Prod.fst) n) : Defective m w (.duplicateProperty n)

/-- The keys under which an expression of the kind has another one. -/
def Kind.partKeys : Kind → List String
  | .array => ["element"]
  | .record => ["value"]
  | .columnType => ["selectType", "insertType", "updateType"]
  | _ => []

/-- The hole is where an expression stands: `v` is one, and with it in the hole each document
around says that it is of a kind that has an expression there. The whole is read from the text
or from what was kept of it, and so is `v` as far as it stands for the whole. Below an
expression everything is read from what was kept. -/
inductive StandsAt (v : Document) (inner : Access) : Access → Hole → Prop where
  | here {e : TypeExpr} (h : Spells inner v e) : StandsAt v inner inner .here
  | part {m : Access} {p q : Hole} {k : Kind} {key : String} (h : StandsAt v inner .kept p)
      (hkey : key ∈ k.partKeys) (hq : p.InField k.keys key q) (hk : k.Marks m (q.fill v)) :
      StandsAt v inner m q
  | member {m : Access} {p q : Hole} {first last : List Document} (h : StandsAt v inner .kept p)
      (hq : (p.among first last).InField Kind.union.keys "members" q)
      (hk : Kind.union.Marks m (q.fill v)) : StandsAt v inner m q
  | property {m : Access} {p q r : Hole} {first last : List Document}
      (h : StandsAt v inner .kept p) (hr : p.InField propertyForm.fields "type" r)
      (hq : (r.among first last).InField Kind.object.keys "properties" q)
      (hk : Kind.object.Marks m (q.fill v)) : StandsAt v inner m q

section Parts

variable {readType : Reader TypeExpr} {err : ReadError} {v w : Document} {p q : Hole}
  {key : String}

theorem refuses_readProperty (h : Refuses readType err (p.fill v) (p.fill w)) (m : Access)
    (hq : p.InField propertyForm.fields "type" q) :
    Refuses (readProperty m readType) err (q.fill v) (q.fill w) := by
  have htake : ∀ parts : PropertyParts,
      Refuses (parts.take readType "type") err (p.fill v) (p.fill w) := by
    intro parts
    apply h.onceInto "type" parts.type fun type => { parts with type }
    intro c
    simp [PropertyParts.take]
  exact (refuses_fields htake m {} hq).bind fun d parts => do
    let name ← required (propertyForm.missing "name" d) parts.name
    return (name, ← required (propertyForm.missing "type" d) parts.type)

/-- No direction of a column type is passed over because it is refused. -/
theorem refuses_readColumn (h : Refuses readType err (p.fill v) (p.fill w)) (hv : p.fill v ≠ .null)
    (hw : p.fill w ≠ .null) (hkey : key ∈ Kind.columnType.partKeys)
    (hq : p.InField (Kind.form .columnType).fields key q) :
    Refuses (readColumn readType) err (q.fill v) (q.fill w) := by
  have hoptional := h.optional hv hw
  have htake : ∀ parts : ColumnParts,
      Refuses (parts.take readType key) err (p.fill v) (p.fill w) := by
    intro parts
    simp only [Kind.partKeys, List.mem_cons, List.not_mem_nil, or_false] at hkey
    rcases hkey with rfl | rfl | rfl
    · apply h.onceInto "selectType" parts.select fun select => { parts with select }
      intro c
      simp [ColumnParts.take]
    · apply hoptional.onceInto "insertType" parts.insert fun insert => { parts with insert }
      intro c
      simp [ColumnParts.take]
    · apply hoptional.onceInto "updateType" parts.update fun update => { parts with update }
      intro c
      simp [ColumnParts.take]
  exact (refuses_fields htake .kept {} hq).bind fun d parts => do
    let select ← required ((Kind.form .columnType).missing "selectType" d) parts.select
    return column select parts.insert.join parts.update.join

theorem refuses_readParts {k : Kind} (h : Refuses readType err (p.fill v) (p.fill w))
    (hv : p.fill v ≠ .null) (hw : p.fill w ≠ .null) (hkey : key ∈ k.partKeys)
    (hq : p.InField k.form.fields key q) :
    Refuses (readParts readType k) err (q.fill v) (q.fill w) := by
  cases k with
  | array =>
      obtain rfl := List.mem_singleton.mp hkey
      exact (h.field .kept (Kind.form .array) hq).map array
  | record =>
      obtain rfl := List.mem_singleton.mp hkey
      exact (h.field .kept (Kind.form .record) hq).map record
  | columnType => exact refuses_readColumn h hv hw hkey hq
  | identifier => exact absurd hkey List.not_mem_nil
  | moduleReference => exact absurd hkey List.not_mem_nil
  | object => exact absurd hkey List.not_mem_nil
  | union => exact absurd hkey List.not_mem_nil

end Parts

section Defects

variable {v w : Document} {err : ConstructionError} {room : Nat} {p q : Hole}
  {m inner : Access}

theorem object?_eq_error {ps : List (String × TypeExpr)} {n : String}
    (h : FirstRepeated (ps.map Prod.fst) n) : object? ps = .error (.duplicateProperty n) := by
  rw [object?, ObjectExpr.ofList?_eq_error_iff.mpr ⟨n, h, rfl⟩]
  rfl

theorem Defective.exists_marks (hw : Defective m w err) : ∃ k : Kind, k.Marks m w := by
  cases hw with
  | emptyUnion hk _ => exact ⟨_, hk⟩
  | duplicateProperty hk _ _ => exact ⟨_, hk⟩

/-- A document with a defect is refused for it. -/
theorem Defective.read_eq_error (hw : Defective m w err) (hr : w.readable room = true) :
    read m room w = .error (.construction err) := by
  cases room with
  | zero =>
      obtain ⟨k, hk⟩ := hw.exists_marks
      exact absurd hr hk.not_readable_zero
  | succ room =>
      have htail := Document.readable_tail hr
      cases hw with
      | emptyUnion hk hm =>
          have hmembers : readPart .union "members" (list (read .kept room)) w.tail = .ok [] := by
            apply (field_eq_ok_iff htail).mpr
            obtain ⟨_, hv, rfl⟩ := hm
            exact ⟨_, hv, rfl⟩
          simp only [read_eq_readParts hr hk, readParts, hmembers]
          rfl
      | @duplicateProperty ps n hk hp hn =>
          have htype : ∀ c : Document, c.readable room = true → ∀ e : TypeExpr,
              read .kept room c = .ok e ↔ Spells .kept c e := by
            intro c hc e
            rw [read_eq_ok_iff, and_iff_right hc]
          have hread : ∀ c : Document, c.readable room = true → ∀ q : String × TypeExpr,
              readProperty .kept (read .kept room) c = .ok q ↔ SpellsProperty c q :=
            fun _ => readProperty_eq_ok_iff_spells htype
          have hproperties : readPart .object "properties"
              (list (readProperty .kept (read .kept room))) w.tail = .ok ps := by
            apply (field_eq_ok_iff htail).mpr
            simp only [spellsProperties_iff] at hp
            exact (has_list_iff hread (Document.readable_tabled _ htail)).mpr hp
          simp only [read_eq_readParts hr hk, readParts, hproperties, ok_bind,
            object?_eq_error hn]
          rfl

theorem StandsAt.ne_null (h : StandsAt v inner m p) : p.fill v ≠ .null := by
  cases h with
  | here hs =>
      rintro rfl
      exact not_spells_null _ _ hs
  | part _ _ hq _ => exact hq.fill_ne_null v
  | member _ hq _ => exact hq.fill_ne_null v
  | property _ _ hq _ => exact hq.fill_ne_null v

theorem Defective.fill_ne_null (hw : Defective inner w err) (h : StandsAt v inner m p) :
    p.fill w ≠ .null := by
  cases h with
  | here =>
      obtain ⟨k, hk⟩ := hw.exists_marks
      rintro rfl
      exact hk.not_readable_zero rfl
  | part _ _ hq _ => exact hq.fill_ne_null w
  | member _ hq _ => exact hq.fill_ne_null w
  | property _ _ hq _ => exact hq.fill_ne_null w

/-- What kind of expression a document is does not hang on the value of another field. -/
theorem Kind.Marks.refill {k : Kind} {key : String} (hk : k.Marks m (q.fill v))
    (hq : p.InField k.keys key q) (hkey : key ≠ "kind") : k.Marks m (q.fill w) := by
  cases hq with
  | under before after => exact Document.has_fill_under hkey hk
  | @among before hname after =>
      cases before with
      | nil => exact absurd (Option.some.inj hname).symm hkey
      | cons d before => exact hk

/-- An expression is refused if it says its kind and a part of the kind is refused. -/
theorem refuses_read {k : Kind} {key : String} {e : ReadError} (hw : w.Legible)
    (hk : k.Marks m (q.fill v)) (hq : p.InField k.keys key q) (hkey : key ≠ "kind")
    (hn : (q.fill w).nesting ≤ room)
    (h : ∀ least q', (p.fill w).nesting ≤ least → p.InField k.form.fields key q' →
      Refuses (readParts (read .kept least) k) e (q'.fill v) (q'.fill w)) :
    Refuses (read m room) e (q.fill v) (q.fill w) := by
  intro a ha
  have hv := (read_eq_ok_iff.mp ha).1
  have hr := Hole.readable_fill hw hv hn
  obtain ⟨q', hq', htail⟩ := hq.exists_tail hkey
  cases room with
  | zero => exact absurd hv hk.not_readable_zero
  | succ least =>
      have hinner := Nat.lt_of_lt_of_le (hq.nesting_lt w) hn
      rw [read_eq_readParts hv hk, htail] at ha
      rw [read_eq_readParts hr (hk.refill hq hkey), htail]
      exact h least q' (Nat.le_of_lt_succ hinner) hq' a ha

theorem Kind.ne_of_mem_partKeys {k : Kind} {key : String} (h : key ∈ k.partKeys) :
    key ≠ "kind" := by
  rintro rfl
  cases k <;> simp [partKeys] at h

/-- A defect is what an expression is refused for, wherever in it the hole is. -/
theorem Defective.refuses (hw : Defective inner w err) (hl : w.Legible)
    (h : StandsAt v inner m p) (hn : (p.fill w).nesting ≤ room) :
    Refuses (read m room) (.construction err) (p.fill v) (p.fill w) := by
  induction h generalizing room with
  | here hs =>
      obtain ⟨least, hleast⟩ := hl
      intro e _
      exact hw.read_eq_error (Document.readable_of_nesting_le w hleast hn)
  | part h hkey hq hk ih =>
      apply refuses_read hl hk hq (Kind.ne_of_mem_partKeys hkey) hn
      intro least q' hinner hq'
      exact refuses_readParts (ih hinner) h.ne_null (hw.fill_ne_null h) hkey hq'
  | @member m p q first last h hq hk ih =>
      apply refuses_read hl hk hq (by decide) hn
      intro least q' hlist hq'
      have hinner := Nat.lt_of_lt_of_le Document.nesting_lt_fill_among hlist
      have hmembers := (ih (Nat.le_of_lt hinner)).list first last
      exact (hmembers.field .kept (Kind.form .union) hq').bind fun _ es => built (union? es)
  | @property m p q r first last h hr hq hk ih =>
      apply refuses_read hl hk hq (by decide) hn
      intro least q' hlist hq'
      have hitem := Nat.lt_of_lt_of_le Document.nesting_lt_fill_among hlist
      have hinner := Nat.lt_trans (hr.nesting_lt w) hitem
      have hproperty := refuses_readProperty (ih (Nat.le_of_lt hinner)) .kept hr
      have hproperties := hproperty.list first last
      exact (hproperties.field .kept (Kind.form .object) hq').bind fun _ ps => built (object? ps)

end Defects

end TypeExpr

open Document (Hole)
open Reader TypeExpr

/-- The hole is for the type of a property of an object, or within one. -/
inductive ObjectExpr.StandsAt (v : Document) (inner : Access) : Hole → Prop where
  | property {p q r : Hole} {first last : List Document} (h : TypeExpr.StandsAt v inner .text p)
      (hr : p.InField propertyForm.fields "type" r)
      (hq : (r.among first last).InField (Kind.form .object).fields "properties" q) :
      StandsAt v inner q

/-- The hole is for a type that an adapter holds, or within one. -/
inductive Adapter.StandsAt (v : Document) (inner : Access) : Hole → Prop where
  | defaultScalar {p q : Hole} (h : TypeExpr.StandsAt v inner .text p)
      (hq : p.InField Adapter.form.fields "defaultScalar" q) : StandsAt v inner q
  | entry {p q : Hole} {earlier later : List (Option String × Document)}
      {registry name : String} (h : TypeExpr.StandsAt v inner .text p)
      (hregistry : registry = "scalars" ∨ registry = "definitions")
      (hq : (p.under earlier later name).InField Adapter.form.fields registry q) :
      StandsAt v inner q

section Surfacing

variable {v w : Document} {err : ConstructionError} {p : Hole} {inner : Access}

theorem ObjectExpr.refuses (hw : Defective inner w err) (hl : w.Legible)
    (h : ObjectExpr.StandsAt v inner p) (hn : (p.fill w).nesting ≤ maxNesting) :
    Refuses ObjectExpr.read (.construction err) (p.fill v) (p.fill w) := by
  cases h with
  | @property p q r first last h hr hq =>
      -- The type stands three levels below the object.
      have hlist := hq.nesting_lt w
      have hitem : (r.fill w).nesting < ((r.among first last).fill w).nesting :=
        Document.nesting_lt_fill_among
      have hinner := hr.nesting_lt w
      have htype : Refuses (TypeExpr.read .text (maxNesting - 3)) (.construction err) (p.fill v)
          (p.fill w) := hw.refuses hl h (by omega)
      have hproperties := (refuses_readProperty htype .text hr).list first last
      exact (hproperties.field .text (Kind.form .object) hq).bind fun _ ps => built (ofList? ps)

theorem Adapter.refuses (hw : Defective inner w err) (hl : w.Legible)
    (h : Adapter.StandsAt v inner p) (hn : (p.fill w).nesting ≤ maxNesting) :
    Refuses Adapter.read (.construction err) (p.fill v) (p.fill w) := by
  have hread : ∀ {p q : Hole} {key : String}, p.InField form.fields key q →
      (∀ parts : Parts, Refuses (parts.take key) (.construction err) (p.fill v) (p.fill w)) →
      Refuses Adapter.read (.construction err) (q.fill v) (q.fill w) :=
    fun hq htake => (refuses_fields htake .text {} hq).bind _
  cases h with
  | @defaultScalar p q h hq =>
      have hinner := Nat.lt_of_lt_of_le (hq.nesting_lt w) hn
      have htype : Refuses (TypeExpr.read .text (maxNesting - 1)) (.construction err) (p.fill v)
          (p.fill w) := hw.refuses hl h (Nat.le_pred_of_lt hinner)
      apply hread hq
      intro parts
      apply htype.onceInto "defaultScalar" parts.defaultScalar fun defaultScalar =>
        { parts with defaultScalar }
      intro c
      simp [Parts.take]
  | @entry p q earlier later registry name h hregistry hq =>
      have houter := Nat.lt_of_lt_of_le (hq.nesting_lt w) hn
      have hinner := Nat.lt_of_lt_of_le Document.nesting_lt_fill_under (Nat.le_pred_of_lt houter)
      have htype : Refuses (TypeExpr.read .text (maxNesting - 2)) (.construction err) (p.fill v)
          (p.fill w) := hw.refuses hl h (Nat.le_pred_of_lt hinner)
      have htypes := htype.registry name earlier later
      apply hread hq
      intro parts
      rcases hregistry with rfl | rfl
      · apply htypes.onceInto "scalars" parts.scalars fun scalars => { parts with scalars }
        intro c
        simp [Parts.take, readTypes]
      · apply htypes.onceInto "definitions" parts.definitions fun definitions =>
          { parts with definitions }
        intro c
        simp [Parts.take, readTypes]

/-- The text of the error is that of the construction, with the place where reading stopped
if it did so. Only an end of it that looks like a position is printed otherwise. -/
theorem printed?_construction (err : ConstructionError) (stopped : Option Text.Position) :
    ∃ printed, (ReadError.construction err).printed? stopped = some printed ∧
      (err = .emptyUnion → printed = err.message ++ Text.shownPlace stopped) ∧
      (printed = err.message ++ Text.shownPlace stopped ∧
          (∀ (position : Text.Position) (ending text : String), position.IsText ending →
            err.message ≠ text ++ ending) ∨
        ∃ (position : Text.Position) (ending text : String), position.IsText ending ∧
          err.message = text ++ ending ∧
          printed = text ++
            if 0 < position.line then position.shown else Text.shownPlace stopped) := by
  refine ⟨_, rfl, ?_, ?_⟩
  · rintro rfl
    have hsplit : Text.splitPosition ConstructionError.emptyUnion.message =
        (ConstructionError.emptyUnion.message, none) := by
      apply Text.splitPosition_eq_self
      have hlast : ConstructionError.emptyUnion.message.toList.getLast? = some 'r' := by decide
      rw [hlast]
      rintro c ⟨⟩
      rfl
    simp [hsplit]
  · rcases hsplit : Text.splitPosition err.message with ⟨text, _ | position⟩
    · obtain ⟨rfl, hnone⟩ := Text.splitPosition_eq_none_iff.mp hsplit
      exact .inl ⟨by simp, hnone⟩
    · obtain ⟨ending, hending, hmessage⟩ := Text.splitPosition_eq_some_iff.mp hsplit
      refine .inr ⟨position, ending, text, hending, hmessage, ?_⟩
      by_cases hline : 0 < position.line
      · simp [Option.filter, hline, Text.shownPlace]
      · simp [Option.filter, hline]

/-- Where a text is read, a text that has a document with a defect in place of one of its
expressions is refused for the defect, unless it nests too deep. So it is for the texts of
expressions, objects and adapters, and for tables and sequences alike. The error is printed
with the text of the construction's own, but for an end that looks like a position. -/
theorem defect_surfaces (hw : Defective inner w err) (hl : w.Legible) {text text' : String}
    (hd : Json.Denotes text (p.fill v)) (hd' : Json.Denotes text' (p.fill w))
    (hn : Json.nesting text' ≤ maxNesting) :
    (TypeExpr.StandsAt v inner .text p → (∃ e, TypeExpr.ofText text = .ok e) →
      TypeExpr.ofText text' = .error (.construction err)) ∧
    (ObjectExpr.StandsAt v inner p → (∃ o, ObjectExpr.ofText text = .ok o) →
      ObjectExpr.ofText text' = .error (.construction err)) ∧
    (Adapter.StandsAt v inner p → (∃ a, Adapter.ofText text = .ok a) →
      Adapter.ofText text' = .error (.construction err)) ∧
    ∀ stopped, ∃ printed, (ReadError.construction err).printed? stopped = some printed ∧
      (err = .emptyUnion → printed = err.message ++ Text.shownPlace stopped) ∧
      (printed = err.message ++ Text.shownPlace stopped ∧
          (∀ (position : Text.Position) (ending text : String), position.IsText ending →
            err.message ≠ text ++ ending) ∨
        ∃ (position : Text.Position) (ending text : String), position.IsText ending ∧
          err.message = text ++ ending ∧
          printed = text ++
            if 0 < position.line then position.shown else Text.shownPlace stopped) := by
  rw [Json.nesting_of_denotes hd'] at hn
  refine ⟨?_, ?_, ?_, printed?_construction err⟩
  · intro h hread
    exact (hw.refuses hl h hn).whole hd hd' hread
  · intro h hread
    exact (ObjectExpr.refuses hw hl h hn).whole hd hd' hread
  · intro h hread
    exact (Adapter.refuses hw hl h hn).whole hd hd' hread

end Surfacing

section Examples

open Json (Value)

/-- An object with two properties of one name. -/
def twiceNamed (name : String) : Value :=
  tagged .object [("properties", .array [
    .object [("name", .string name), ("type", (identifier "number").toJson)],
    .object [("type", (identifier "string").toJson), ("name", .string name)]])]

theorem defective_twiceNamed (name : String) :
    Defective .kept (twiceNamed name).document (.duplicateProperty name) := by
  have htype : ∀ n, Spells .kept (identifier n).toJson.document (identifier n) :=
    fun n => ⟨⟨_, rfl, .inl rfl⟩, _, rfl, rfl⟩
  have hproperties : (twiceNamed name).document.Has "properties" fun v =>
      ∃ ds, v = .array ds true ∧
        SpellsProperties ds [(name, identifier "number"), (name, identifier "string")] :=
    ⟨_, rfl, _, rfl, ⟨⟨_, rfl, rfl⟩, _, rfl, htype _⟩, ⟨⟨_, rfl, rfl⟩, _, rfl, htype _⟩, trivial⟩
  exact .duplicateProperty ⟨_, rfl, .inl rfl⟩ hproperties ⟨[name], [], rfl, by simp, by simp⟩

/-- A union without members, which says last of what kind it is. -/
def memberless : Value :=
  .object [("members", .array []), ("kind", .string "union")]

theorem defective_memberless : Defective .kept memberless.document .emptyUnion :=
  .emptyUnion ⟨_, rfl, .inl rfl⟩ ⟨_, rfl, rfl⟩

/-- The expression in whose place others are put. -/
def date : Value :=
  (identifier "Date").toJson

/-- A column that is inserted as an array of what the value writes. -/
def columnOf (value : Value) : Value :=
  tagged .columnType [("selectType", date), ("insertType", tagged .array [("element", value)])]

def dateColumn : TypeExpr :=
  .columnType (.identifier "Date") (.array (.identifier "Date")) (.array (.identifier "Date"))

def holeInColumn : Hole :=
  .under [(some "kind", .string (some "columnType")), (some "selectType", date.document)] []
    "insertType" (.under [(some "kind", .string (some "array"))] [] "element" .here)

theorem standsAt_holeInColumn : TypeExpr.StandsAt date.document .kept .text holeInColumn := by
  have hdate : Spells .kept date.document (identifier "Date") := ⟨⟨_, rfl, .inl rfl⟩, _, rfl, rfl⟩
  have hvalue : TypeExpr.StandsAt date.document .kept .kept
      (.under [(some "kind", .string (some "array"))] [] "element" .here) :=
    .part (k := .array) (.here hdate) (by decide) (.under _ _) ⟨_, rfl, .inl rfl⟩
  exact .part (k := .columnType) hvalue (by decide) (.under _ _) ⟨_, rfl, .inl rfl⟩

theorem ofText_columnOf_date : TypeExpr.ofText (columnOf date).text = .ok dateColumn := by
  rw [TypeExpr.ofText, Value.source_text]
  decide +kernel

/-- An object with a property that has the column as its type. -/
def objectOf (value : Value) : Value :=
  .object [("properties", .array [.object [("type", columnOf value), ("name", .string "at")]])]

def holeInObject : Hole :=
  .under [] [] "properties"
    (.among [] [] (.under [] [(some "name", .string (some "at"))] "type" holeInColumn))

theorem ofText_objectOf_date :
    ObjectExpr.ofText (objectOf date).text = .ok ⟨[("at", dateColumn)]⟩ := by
  rw [ObjectExpr.ofText, Value.source_text]
  decide +kernel

/-- An adapter with a definition that is the column. -/
def adapterOf (value : Value) : Value :=
  .object [("dialect", .string "postgresql"), ("defaultScalar", date),
    ("defaultSchemas", .array []), ("scalars", .object [("date", date)]),
    ("definitions", .object [("Span", columnOf value)]), ("imports", .object [])]

def holeInAdapter : Hole :=
  .under [(some "dialect", .string (some "postgresql")), (some "defaultScalar", date.document),
      (some "defaultSchemas", .array [] true),
      (some "scalars", .object [(some "date", date.document)] true)]
    [(some "imports", .object [] true)] "definitions" (.under [] [] "Span" holeInColumn)

theorem ofText_adapterOf_date : Adapter.ofText (adapterOf date).text =
    .ok (.ofChanges .postgresql [.defaultScalar (.identifier "Date"),
      .scalar "date" (.identifier "Date"), .definition "Span" dateColumn]) := by
  rw [Adapter.ofText, Value.source_text]
  decide +kernel

/-- Arrays of records as sequences, where a record is told by its number. -/
def sequenceText (value : String) : String :=
  "[\"array\",[5," ++ value ++ "]]"

def holeInSequence : Hole :=
  .among [.string (some "array")] [] (.among [.number (some (.integer 5))] [] .here)

def dateSequence : Document :=
  .array [.string (some "identifier"), .string (some "Date")] true

/-- A union without members, told by its number. -/
def memberlessSequence : Document :=
  .array [.number (some (.integer 3)), .array [] true] true

theorem denotes_dateSequence :
    Json.Denotes (sequenceText "[\"identifier\",\"Date\"]") (holeInSequence.fill dateSequence) :=
  Json.denotes_of_source (by decide +kernel) rfl

theorem denotes_memberlessSequence :
    Json.Denotes (sequenceText "[3,[]]") (holeInSequence.fill memberlessSequence) :=
  Json.denotes_of_source (by decide +kernel) rfl

theorem standsAt_holeInSequence : TypeExpr.StandsAt dateSequence .kept .text holeInSequence := by
  have hdate : Spells .kept dateSequence (identifier "Date") := ⟨⟨_, rfl, .inl rfl⟩, _, rfl, rfl⟩
  have hrecord : TypeExpr.StandsAt dateSequence .kept .kept
      (.among [.number (some (.integer 5))] [] .here) :=
    .part (k := .record) (.here hdate) (by decide) (.among rfl []) ⟨_, rfl, .inr ⟨rfl, 5, rfl, rfl⟩⟩
  exact .part (k := .array) hrecord (by decide) (.among rfl []) ⟨_, rfl, .inl rfl⟩

theorem defective_memberlessSequence : Defective .kept memberlessSequence .emptyUnion :=
  .emptyUnion ⟨_, rfl, .inr ⟨rfl, 3, rfl, rfl⟩⟩ ⟨_, rfl, rfl⟩

/-- In a column, in an object, in an adapter and in sequences the defect of a document
surfaces. -/
theorem defects_in_column_surface :
    Defective .kept memberless.document .emptyUnion ∧ memberless.document.Legible ∧
    Defective .kept (twiceNamed "from").document (.duplicateProperty "from") ∧
    (twiceNamed "from").document.Legible ∧
    (TypeExpr.StandsAt date.document .kept .text holeInColumn ∧
      (∃ e, TypeExpr.ofText (columnOf date).text = .ok e) ∧
      Json.nesting (columnOf memberless).text ≤ maxNesting ∧
      TypeExpr.ofText (columnOf memberless).text = .error (.construction .emptyUnion)) ∧
    (ObjectExpr.StandsAt date.document .kept holeInObject ∧
      (∃ o, ObjectExpr.ofText (objectOf date).text = .ok o) ∧
      Json.nesting (objectOf (twiceNamed "from")).text ≤ maxNesting ∧
      ObjectExpr.ofText (objectOf (twiceNamed "from")).text =
        .error (.construction (.duplicateProperty "from"))) ∧
    (Adapter.StandsAt date.document .kept holeInAdapter ∧
      (∃ a, Adapter.ofText (adapterOf date).text = .ok a) ∧
      Json.nesting (adapterOf (twiceNamed "from")).text ≤ maxNesting ∧
      Adapter.ofText (adapterOf (twiceNamed "from")).text =
        .error (.construction (.duplicateProperty "from"))) ∧
    TypeExpr.StandsAt dateSequence .kept .text holeInSequence ∧
      (∃ e, TypeExpr.ofText (sequenceText "[\"identifier\",\"Date\"]") = .ok e) ∧
      Json.nesting (sequenceText "[3,[]]") ≤ maxNesting ∧
      TypeExpr.ofText (sequenceText "[3,[]]") = .error (.construction .emptyUnion) := by
  have hunion : memberless.document.Legible := ⟨2, by decide⟩
  have hobject : (twiceNamed "from").document.Legible := ⟨4, by decide⟩
  have hsequence : memberlessSequence.Legible := ⟨2, by decide⟩
  have hinColumn := standsAt_holeInColumn
  have hinObject : ObjectExpr.StandsAt date.document .kept holeInObject :=
    .property hinColumn (.under _ _) (.under _ _)
  have hinAdapter : Adapter.StandsAt date.document .kept holeInAdapter :=
    .entry hinColumn (Or.inr rfl) (.under _ _)
  have hcolumn : Json.nesting (columnOf memberless).text ≤ maxNesting := by
    rw [Value.nesting_text]
    decide
  have hproperty : Json.nesting (objectOf (twiceNamed "from")).text ≤ maxNesting := by
    rw [Value.nesting_text]
    decide
  have hdefinition : Json.nesting (adapterOf (twiceNamed "from")).text ≤ maxNesting := by
    rw [Value.nesting_text]
    decide
  have hinSequence : Json.nesting (sequenceText "[3,[]]") ≤ maxNesting := by
    rw [Json.nesting_of_denotes denotes_memberlessSequence]
    decide
  have hrecords : ∃ e, TypeExpr.ofText (sequenceText "[\"identifier\",\"Date\"]") = .ok e :=
    ⟨.array (.record (.identifier "Date")), by decide +kernel⟩
  have htwice := defective_twiceNamed "from"
  refine ⟨defective_memberless, hunion, htwice, hobject,
    ⟨hinColumn, ⟨_, ofText_columnOf_date⟩, hcolumn, ?_⟩,
    ⟨hinObject, ⟨_, ofText_objectOf_date⟩, hproperty, ?_⟩,
    ⟨hinAdapter, ⟨_, ofText_adapterOf_date⟩, hdefinition, ?_⟩,
    standsAt_holeInSequence, hrecords, hinSequence, ?_⟩
  · exact (defect_surfaces defective_memberless hunion (Value.denotes_text _)
      (Value.denotes_text _) hcolumn).1 hinColumn ⟨_, ofText_columnOf_date⟩
  · exact (defect_surfaces htwice hobject (Value.denotes_text _)
      (Value.denotes_text _) hproperty).2.1 hinObject ⟨_, ofText_objectOf_date⟩
  · exact (defect_surfaces htwice hobject (Value.denotes_text _)
      (Value.denotes_text _) hdefinition).2.2.1 hinAdapter ⟨_, ofText_adapterOf_date⟩
  · exact (defect_surfaces defective_memberlessSequence hsequence denotes_dateSequence
      denotes_memberlessSequence hinSequence).1 standsAt_holeInSequence hrecords

/-- A repeated name that ends like a position is printed otherwise by the error of reading
than by the error of the construction. -/
theorem name_like_position_reprinted :
    TypeExpr.StandsAt date.document .kept .text holeInColumn ∧
    TypeExpr.ofText (columnOf date).text = .ok dateColumn ∧
    ObjectExpr.ofList? [("x at line 03 column 007", identifier "number"),
        ("x at line 03 column 007", identifier "string")] =
      .error (.duplicateProperty "x at line 03 column 007") ∧
    TypeExpr.ofText (columnOf (twiceNamed "x at line 03 column 007")).text =
      .error (.construction (.duplicateProperty "x at line 03 column 007")) ∧
    (ConstructionError.duplicateProperty "x at line 03 column 007").message =
      "Duplicate property in object expression: x at line 03 column 007" ∧
    (ReadError.construction (.duplicateProperty "x at line 03 column 007")).message? =
      some "Duplicate property in object expression: x" ∧
    (ReadError.construction (.duplicateProperty "x at line 03 column 007")).printed? none =
      some "Duplicate property in object expression: x at line 3 column 7" := by
  refine ⟨standsAt_holeInColumn, ofText_columnOf_date, by decide, ?_, by decide,
    by decide +kernel, by decide +kernel⟩
  rw [TypeExpr.ofText, Value.source_text]
  decide +kernel

end Examples

end DialectTypes
