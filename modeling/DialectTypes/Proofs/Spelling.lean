import DialectTypes.Proofs.Acceptance
import DialectTypes.Proofs.Construction
import DialectTypes.Proofs.JsonText

/-!
# Spellings of type expressions

A document spells an expression if it says once what kind of expression it is and
has each field of the kind once, where the values of the fields spell the parts.
A column type may omit its insert and its update type, which are then the same as
the type before. It does not matter where the members of a table stand, nor what
stands under other keys. A sequence spells an expression if it starts with the kind
and goes on with the values of the fields, in their order and with none to spare.

Of the documents that are readable with the room that there is, reading accepts
those that spell an expression, and gives the expression that they spell.
-/

namespace DialectTypes

namespace TypeExpr

open Reader

/-- What stands for the kind of an expression: its name or, in what was kept, its number. -/
def Kind.IsMark (m : Access) (k : Kind) (d : Document) : Prop :=
  d = .string (some k.tag) ∨
    m = .kept ∧ ∃ i : Nat, d = .number (some (.integer i)) ∧ all[i]? = some k

/-- The document says once that it is an expression of the kind: a table under a key, and a
sequence first of all. -/
def Kind.Marks (m : Access) (k : Kind) : Document → Prop
  | .array ds _ => ∃ d ∈ ds.head?, k.IsMark m d
  | d => d.Has "kind" (k.IsMark m)

/-- What the document has under the fields of the kind, as a table. -/
def Kind.parts (k : Kind) (d : Document) : Document :=
  d.tail.tabled k.form.fields

@[simp] theorem Kind.parts_object (k : Kind) (ms : List (Option String × Document))
    (closed : Bool) : k.parts (.object ms closed) = .object ms closed := rfl

/-- The keys that an expression of the kind knows. -/
def Kind.keys (k : Kind) : List String :=
  "kind" :: k.form.fields

mutual

/-- The document spells the expression. -/
def Spells : Access → Document → TypeExpr → Prop
  | m, d, identifier n =>
    Kind.identifier.Marks m d ∧ (Kind.identifier.parts d).Has "name" (· = .string (some n))
  | m, d, moduleReference r =>
    Kind.moduleReference.Marks m d ∧
      (Kind.moduleReference.parts d).Has "specifier" (· = .string (some r.specifier))
  | m, d, object ps =>
    Kind.object.Marks m d ∧ (ps.map Prod.fst).Nodup ∧
      (Kind.object.parts d).Has "properties" fun v =>
        ∃ ds, v = .array ds true ∧ SpellsProperties ds ps
  | m, d, union es =>
    Kind.union.Marks m d ∧ es ≠ [] ∧
      (Kind.union.parts d).Has "members" fun v => ∃ ds, v = .array ds true ∧ SpellsMembers ds es
  | m, d, array t =>
    Kind.array.Marks m d ∧ (Kind.array.parts d).Has "element" fun v => Spells .kept v t
  | m, d, record t =>
    Kind.record.Marks m d ∧ (Kind.record.parts d).Has "value" fun v => Spells .kept v t
  | m, d, columnType s i u =>
    Kind.columnType.Marks m d ∧
      ((Kind.columnType.parts d).Has "selectType" fun v => Spells .kept v s) ∧
      (((Kind.columnType.parts d).Omits "insertType" ∧ i = s) ∨
        (Kind.columnType.parts d).Has "insertType" fun v => Spells .kept v i) ∧
      (((Kind.columnType.parts d).Omits "updateType" ∧ u = i) ∨
        (Kind.columnType.parts d).Has "updateType" fun v => Spells .kept v u)

/-- The documents spell the expressions one by one. -/
def SpellsMembers : List Document → List TypeExpr → Prop
  | [], [] => True
  | d :: ds, e :: es => Spells .kept d e ∧ SpellsMembers ds es
  | _, _ => False

/-- The documents spell the properties one by one, each with its name and its type. -/
def SpellsProperties : List Document → List (String × TypeExpr) → Prop
  | [], [] => True
  | d :: ds, (n, t) :: ps =>
    ((d.tabled propertyForm.fields).Has "name" (· = .string (some n)) ∧
      (d.tabled propertyForm.fields).Has "type" fun v => Spells .kept v t) ∧
      SpellsProperties ds ps
  | _, _ => False

end

/-- The document spells the property. -/
def SpellsProperty (d : Document) (p : String × TypeExpr) : Prop :=
  (d.tabled propertyForm.fields).Has "name" (· = .string (some p.1)) ∧
    (d.tabled propertyForm.fields).Has "type" fun v => Spells .kept v p.2

/-- A direction of a column type is spelled under its key, or it is omitted and is the same
as another. -/
def SpellsSlot (d : Document) (key : String) (other t : TypeExpr) : Prop :=
  (d.Omits key ∧ t = other) ∨ d.Has key fun v => Spells .kept v t

theorem spells_columnType_iff {m : Access} {d : Document} {s i u : TypeExpr} :
    Spells m d (columnType s i u) ↔
      Kind.columnType.Marks m d ∧
        ((Kind.columnType.parts d).Has "selectType" fun v => Spells .kept v s) ∧
        SpellsSlot (Kind.columnType.parts d) "insertType" s i ∧
        SpellsSlot (Kind.columnType.parts d) "updateType" i u :=
  Iff.rfl

theorem spellsMembers_iff {ds : List Document} {es : List TypeExpr} :
    SpellsMembers ds es ↔ List.Forall₂ (Spells .kept) ds es := by
  induction ds generalizing es with
  | nil => cases es <;> simp [SpellsMembers]
  | cons d ds ih => cases es <;> simp [SpellsMembers, ih]

theorem spellsProperties_iff {ds : List Document} {ps : List (String × TypeExpr)} :
    SpellsProperties ds ps ↔ List.Forall₂ SpellsProperty ds ps := by
  induction ds generalizing ps with
  | nil => cases ps <;> simp [SpellsProperties]
  | cons d ds ih => cases ps <;> simp [SpellsProperties, SpellsProperty, ih]

theorem Kind.tag_injective {k l : Kind} (h : k.tag = l.tag) : k = l := by
  simpa [h] using (ofTag?_tag k).symm

section Marks

variable {m : Access} {k l : Kind} {d : Document}

theorem Kind.IsMark.unique (hk : k.IsMark m d) (hl : l.IsMark m d) : k = l := by
  rcases hk with rfl | ⟨-, i, rfl, hi⟩ <;> rcases hl with h | ⟨-, j, h, hj⟩
  · exact tag_injective (by simpa using h)
  · cases h
  · cases h
  · obtain rfl : i = j := by simpa [Int.natCast_inj] using h
    exact Option.some.inj (hi.symm.trans hj)

theorem Kind.IsMark.readable (hk : k.IsMark m d) (room : Nat) : d.readable room = true := by
  rcases hk with rfl | ⟨-, i, rfl, -⟩
  · rw [Document.readable, Option.isSome_some]
  · rw [Document.readable, Option.isSome_some]

/-- What says the kind in the text also says it in what was kept. -/
theorem Kind.IsMark.kept (hk : k.IsMark m d) : k.IsMark .kept d :=
  hk.imp_right fun h => ⟨rfl, h.2⟩

theorem Kind.Marks.unique (hk : k.Marks m d) (hl : l.Marks m d) : k = l := by
  cases d with
  | array ds closed =>
      obtain ⟨d, hd, hk⟩ := hk
      obtain ⟨_, hd', hl⟩ := hl
      obtain rfl := Option.some.inj (hd.symm.trans hd')
      exact hk.unique hl
  | _ =>
      obtain ⟨_, hk, hl⟩ := Document.Has.both hk hl
      exact hk.unique hl

theorem Kind.Marks.kept (hk : k.Marks m d) : k.Marks .kept d := by
  cases d with
  | array ds closed =>
      obtain ⟨d, hd, hk⟩ := hk
      exact ⟨d, hd, hk.kept⟩
  | _ =>
      obtain ⟨d, hd, hk⟩ := hk
      exact ⟨d, hd, hk.kept⟩

/-- Only a table or a sequence says what kind of expression it is, so there is no room for
it where there is no room for either. -/
theorem Kind.Marks.not_readable_zero (hk : k.Marks m d) : d.readable 0 ≠ true := by
  cases d with
  | array ds closed => exact Bool.false_ne_true
  | object ms closed => exact Bool.false_ne_true
  | _ =>
      obtain ⟨_, hv, _⟩ := hk
      cases hv

theorem Spells.marks {e : TypeExpr} (h : Spells m d e) : e.kind.Marks m d := by
  cases e <;> exact h.1

theorem not_spells_null (m : Access) (e : TypeExpr) : ¬ Spells m .null e :=
  fun h => h.marks.not_readable_zero rfl

theorem not_spells_of_omits {key : String} (h : d.Omits key) (e : TypeExpr) :
    ¬ d.Has key fun v => Spells .kept v e := by
  rintro ⟨v, hv, hs⟩
  rcases h with hnone | hnull
  · rw [hnone] at hv
    cases hv
  · rw [Document.has_eq_iff.mp hnull] at hv
    cases hv
    exact not_spells_null .kept e hs

end Marks

section Unique

variable {m : Access} {d : Document}

theorem Spells.kind_eq {e f : TypeExpr} (he : Spells m d e) (hf : Spells m d f) :
    e.kind = f.kind :=
  he.marks.unique hf.marks

theorem SpellsSlot.unique {key : String} {t t' other : TypeExpr}
    (hunique : ∀ v, Spells .kept v t → Spells .kept v t' → t = t')
    (h : SpellsSlot d key other t) (h' : SpellsSlot d key other t') : t = t' := by
  rcases h with ⟨homits, rfl⟩ | hhas <;> rcases h' with ⟨homits', rfl⟩ | hhas'
  · rfl
  · exact absurd hhas' (not_spells_of_omits homits t')
  · exact absurd hhas (not_spells_of_omits homits' t)
  · obtain ⟨v, hv, hv'⟩ := hhas.both hhas'
    exact hunique v hv hv'

mutual

/-- A document spells one expression at most. -/
theorem Spells.unique : ∀ {e f : TypeExpr} {m : Access} {d : Document},
    Spells m d e → Spells m d f → e = f
  | identifier n, f, m, d, he, hf => by
      cases f with
      | identifier n' =>
          obtain ⟨_, rfl, h⟩ := he.2.both hf.2
          simpa using h
      | _ => cases he.kind_eq hf
  | moduleReference n, f, m, d, he, hf => by
      cases f with
      | moduleReference r =>
          obtain ⟨_, rfl, h⟩ := he.2.both hf.2
          cases n
          cases r
          simpa using h
      | _ => cases he.kind_eq hf
  | object ps, f, m, d, he, hf => by
      cases f with
      | object qs =>
          obtain ⟨_, ⟨ds, rfl, hps⟩, _, ⟨⟩, hqs⟩ := he.2.2.both hf.2.2
          rw [SpellsProperties.unique hps hqs]
      | _ => cases he.kind_eq hf
  | union es, f, m, d, he, hf => by
      cases f with
      | union fs =>
          obtain ⟨_, ⟨ds, rfl, hes⟩, _, ⟨⟩, hfs⟩ := he.2.2.both hf.2.2
          rw [SpellsMembers.unique hes hfs]
      | _ => cases he.kind_eq hf
  | array t, f, m, d, he, hf => by
      cases f with
      | array t' =>
          obtain ⟨v, ht, ht'⟩ := he.2.both hf.2
          rw [Spells.unique ht ht']
      | _ => cases he.kind_eq hf
  | record t, f, m, d, he, hf => by
      cases f with
      | record t' =>
          obtain ⟨v, ht, ht'⟩ := he.2.both hf.2
          rw [Spells.unique ht ht']
      | _ => cases he.kind_eq hf
  | columnType s i u, f, m, d, he, hf => by
      cases f with
      | columnType s' i' u' =>
          obtain ⟨-, hs, hi, hu⟩ := he
          obtain ⟨-, hs', hi', hu'⟩ := hf
          obtain ⟨v, hv, hv'⟩ := hs.both hs'
          obtain rfl := Spells.unique hv hv'
          obtain rfl := SpellsSlot.unique (fun v => Spells.unique) hi hi'
          obtain rfl := SpellsSlot.unique (fun v => Spells.unique) hu hu'
          rfl
      | _ => cases he.kind_eq hf

theorem SpellsMembers.unique : ∀ {ms ns : List TypeExpr} {ds : List Document},
    SpellsMembers ds ms → SpellsMembers ds ns → ms = ns
  | [], [], _, _, _ => rfl
  | [], _ :: _, [], _, hn => hn.elim
  | [], _ :: _, _ :: _, hm, _ => hm.elim
  | _ :: _, _, [], hm, _ => hm.elim
  | _ :: _, [], _ :: _, _, hn => hn.elim
  | m :: ms, n :: ns, d :: ds, hm, hn => by
      rw [Spells.unique hm.1 hn.1, SpellsMembers.unique hm.2 hn.2]

theorem SpellsProperties.unique : ∀ {ps qs : List (String × TypeExpr)} {ds : List Document},
    SpellsProperties ds ps → SpellsProperties ds qs → ps = qs
  | [], [], _, _, _ => rfl
  | [], _ :: _, [], _, hq => hq.elim
  | [], _ :: _, _ :: _, hp, _ => hp.elim
  | _ :: _, _, [], hp, _ => hp.elim
  | _ :: _, [], _ :: _, _, hq => hq.elim
  | (n, t) :: ps, (n', t') :: qs, d :: ds, hp, hq => by
      obtain ⟨_, rfl, hname⟩ := hp.1.1.both hq.1.1
      obtain ⟨v, ht, ht'⟩ := hp.1.2.both hq.1.2
      obtain rfl : n = n' := by simpa using hname
      rw [Spells.unique ht ht', SpellsProperties.unique hp.2 hq.2]

end

theorem Spells.spells_iff {e f : TypeExpr} (h : Spells m d e) : Spells m d f ↔ f = e :=
  ⟨fun hf => hf.unique h, fun hf => hf ▸ h⟩

end Unique

section Parts

variable {m : Access} {room : Nat} {readType : Reader TypeExpr} {d : Document}

theorem readKind_eq_ok_iff {k : Kind} : readKind m d = .ok k ↔ k.IsMark m d := by
  cases d with
  | string value =>
      cases value with
      | none => simp [readKind, Kind.IsMark]
      | some s =>
          simp [readKind, Kind.IsMark, oneOf_eq_ok_iff, Kind.ofTag?_eq_some_iff, @eq_comm _ s]
  | number value =>
      rcases value with _ | (i | i) | _ <;> cases m
      case some.integer.ofNat.kept =>
        have hlisted : readKind .kept (.number (some (.integer (.ofNat i)))) = .ok k ↔
            Kind.all[i]? = some k := by
          simp only [readKind]
          cases Kind.all[i]? <;> simp
        refine hlisted.trans ⟨fun h => .inr ⟨rfl, i, rfl, h⟩, ?_⟩
        rintro (h | ⟨-, j, h, hj⟩)
        · cases h
        · cases h
          exact hj
      all_goals simp [readKind, Kind.IsMark]
  | _ => simp [readKind, Kind.IsMark]

theorem readable_of_once_eq_ok {name : String} {old new : Option Kind}
    (h : once name old (readKind m) d = .ok new) : d.readable room = true := by
  cases old with
  | some _ => cases h
  | none =>
      obtain ⟨k, hk, -⟩ := map_eq_ok_iff.mp h
      exact (readKind_eq_ok_iff.mp hk).readable room

/-- The kind of an expression is looked up where all members are readable. -/
theorem members_takeKind_iff {ms : List (Option String × Document)} {old new : Option Kind} :
    members (takeKind m room) ms old = .ok new ↔
      (∀ n ∈ ms, n.1.isSome = true ∧ n.2.readable room = true) ∧
        Fills (readKind m) old ((Document.object ms true).values "kind") new := by
  induction ms generalizing old with
  | nil => simp [members, Document.values_nil]
  | cons n ms ih =>
      obtain ⟨key, v⟩ := n
      cases key with
      | none => simp [members]
      | some key =>
          rw [members_cons, bind_eq_ok_iff, Document.values_cons, List.forall_mem_cons]
          -- A value that is a kind is readable, and every other value is checked to be.
          by_cases hk : key = "kind"
          · subst hk
            rw [if_pos rfl, @fills_cons_iff _ (readKind m) "kind"]
            constructor
            · rintro ⟨o, ho, hrest⟩
              obtain ⟨hms, hfills⟩ := ih.mp hrest
              exact ⟨⟨⟨rfl, readable_of_once_eq_ok ho⟩, hms⟩, o, ho, hfills⟩
            · rintro ⟨⟨-, hms⟩, o, ho, hfills⟩
              exact ⟨o, ho, ih.mpr ⟨hms, hfills⟩⟩
          · by_cases hv : v.readable room = true
            · simp [takeKind, hk, hv, ih]
            · simp [takeKind, hk, hv]

/-- The kind of a readable document is what it says. -/
theorem readMark_eq_ok_iff {k : Kind} :
    readMark m room d = .ok k ↔ d.readable (room + 1) = true ∧ k.Marks m d := by
  cases d with
  | array ds closed =>
      cases ds with
      | nil => cases closed <;> simp [readMark, Kind.Marks]
      | cons d ds =>
          simp only [readMark, bind_eq_ok_iff, readKind_eq_ok_iff, Kind.Marks, List.head?_cons,
            Option.mem_some_iff, exists_eq_left', Document.readable, Document.readableItems]
          constructor
          · rintro ⟨l, hl, hrest⟩
            split at hrest
            · next hds =>
              cases hrest
              simp only [Bool.and_eq_true] at hds ⊢
              exact ⟨⟨hds.1, hl.readable room, hds.2⟩, hl⟩
            · cases hrest
          · rintro ⟨hds, hk⟩
            simp only [Bool.and_eq_true] at hds
            exact ⟨k, hk, by simp [hds.1, hds.2.2]⟩
  | object ms closed =>
      simp only [readMark, bind_eq_ok_iff, required_eq_ok_iff, exists_eq_right,
        table_eq_ok_iff fun d => mismatch_ne_ok .typeExpr d _, members_takeKind_iff,
        fills_some_iff, readKind_eq_ok_iff, Document.readable_object_succ_iff]
      constructor
      · rintro ⟨_, ⟨⟩, hms, hk⟩
        exact ⟨⟨rfl, hms⟩, hk⟩
      · rintro ⟨⟨rfl, hms⟩, hk⟩
        exact ⟨ms, rfl, hms, hk⟩
  | _ => simp [readMark, table, bind_eq_ok_iff, Kind.Marks, Document.Has, Document.values,
      Document.members]

/-- The members fill the parts of a property that they name. -/
def PropertyParts.Filled (readType : Reader TypeExpr) (ms : List (Option String × Document))
    (p q : PropertyParts) : Prop :=
  Fills Reader.string p.name ((Document.object ms true).values "name") q.name ∧
    Fills readType p.type ((Document.object ms true).values "type") q.type

theorem members_takeProperty_iff {ms : List (Option String × Document)}
    (hms : ∀ m ∈ ms, m.1.isSome = true ∧ m.2.intact = true) {p q : PropertyParts} :
    members (PropertyParts.take readType) ms p = .ok q ↔ PropertyParts.Filled readType ms p q := by
  refine members_eq_ok_iff ?_ ?_ hms
  · rintro ⟨_, _⟩ ⟨_, _⟩
    simp [PropertyParts.Filled, Document.values_nil]
  · intro key v ms p q hv
    simp only [PropertyParts.Filled, Document.values_cons, Option.some.injEq, PropertyParts.take]
    by_cases hname : key = "name"
    · subst hname
      simp [@fills_cons_iff _ Reader.string "name", map_eq_ok_iff, ← and_assoc]
    by_cases htype : key = "type"
    · subst htype
      simp [@fills_cons_iff _ readType "type", map_eq_ok_iff, and_left_comm]
    · simp [hname, htype, hv]

/-- The members fill the parts of a column type that they name. -/
def ColumnParts.Filled (readType : Reader TypeExpr) (ms : List (Option String × Document))
    (b c : ColumnParts) : Prop :=
  Fills readType b.select ((Document.object ms true).values "selectType") c.select ∧
    Fills (optional readType) b.insert
      ((Document.object ms true).values "insertType") c.insert ∧
    Fills (optional readType) b.update
      ((Document.object ms true).values "updateType") c.update

theorem members_takeColumn_iff {ms : List (Option String × Document)}
    (hms : ∀ m ∈ ms, m.1.isSome = true ∧ m.2.intact = true) {b c : ColumnParts} :
    members (ColumnParts.take readType) ms b = .ok c ↔ ColumnParts.Filled readType ms b c := by
  refine members_eq_ok_iff ?_ ?_ hms
  · rintro ⟨_, _, _⟩ ⟨_, _, _⟩
    simp [ColumnParts.Filled, Document.values_nil]
  · intro key v ms b c hv
    simp only [ColumnParts.Filled, Document.values_cons, Option.some.injEq, ColumnParts.take]
    by_cases hselect : key = "selectType"
    · subst hselect
      simp [@fills_cons_iff _ readType "selectType", map_eq_ok_iff, ← and_assoc]
    by_cases hinsert : key = "insertType"
    · subst hinsert
      simp only [String.reduceEq, ↓reduceIte, bind_pure_comp, map_eq_ok_iff,
        exists_exists_and_eq_and, @fills_cons_iff _ (optional readType) "insertType"]
      grind
    by_cases hupdate : key = "updateType"
    · subst hupdate
      simp [@fills_cons_iff _ (optional readType) "updateType", map_eq_ok_iff, and_left_comm]
    · simp [hselect, hinsert, hupdate, hv]

theorem readProperty_eq_ok_iff (hd : d.readable room = true) {p : String × TypeExpr} :
    readProperty m readType d = .ok p ↔
      (d.tabled propertyForm.fields).Has "name" (· = .string (some p.1)) ∧
        (d.tabled propertyForm.fields).Has "type" (readType · = .ok p.2) := by
  have htable := Document.readable_tabled propertyForm.fields hd
  simp only [readProperty, bind_eq_ok_iff, required_eq_ok_iff, fields_eq_ok_iff, pure_eq_ok_iff,
    ← string_eq_ok_iff]
  generalize d.tabled propertyForm.fields = t at htable
  cases t with
  | object ms closed =>
      obtain ⟨rfl, hms⟩ := Document.closed_of_readable htable
      simp only [Document.object.injEq, and_true, exists_eq_left', members_takeProperty_iff hms,
        PropertyParts.Filled]
      constructor
      · rintro ⟨⟨name, type⟩, ⟨hname, htype⟩, _, rfl, _, rfl, rfl⟩
        exact ⟨fills_some_iff.mp hname, fills_some_iff.mp htype⟩
      · rintro ⟨hname, htype⟩
        exact ⟨⟨some p.1, some p.2⟩, ⟨fills_some_iff.mpr hname, fills_some_iff.mpr htype⟩,
          p.1, rfl, p.2, rfl, rfl⟩
  | _ => simp [Document.Has, Document.values, Document.members]

/-- What is read of a direction that may be left out, where `other` stands in for it. -/
theorem fills_optional_iff (hnull : ∀ e, readType .null ≠ .ok e) {key : String}
    {other e : TypeExpr} :
    (∃ o, Fills (optional readType) none (d.values key) o ∧ o.join.getD other = e) ↔
      (d.Omits key ∧ e = other) ∨ d.Has key (readType · = .ok e) := by
  constructor
  · rintro ⟨o, ho, rfl⟩
    cases o with
    | none => exact .inl ⟨.inl (fills_none_iff.mp ho), rfl⟩
    | some o =>
        obtain ⟨v, hv, ho⟩ := fills_some_iff.mp ho
        rcases (optional_eq_ok_iff hnull).mp ho with ⟨rfl, rfl⟩ | ⟨t, ht, rfl⟩
        · exact .inl ⟨.inr (Document.has_eq_iff.mpr hv), rfl⟩
        · exact .inr ⟨v, hv, ht⟩
  · rintro (⟨hv | ⟨_, hv, rfl⟩, rfl⟩ | ⟨v, hv, he⟩)
    · exact ⟨none, fills_none_iff.mpr hv, rfl⟩
    · exact ⟨some none, fills_some_iff.mpr ⟨_, hv, rfl⟩, rfl⟩
    · exact ⟨some (some e),
        fills_some_iff.mpr ⟨v, hv, (optional_eq_ok_iff hnull).mpr (.inr ⟨e, he, rfl⟩)⟩, rfl⟩

theorem readColumn_eq_ok_iff (hd : d.readable room = true)
    (hnull : ∀ e, readType .null ≠ .ok e) {t : Document}
    (ht : d.tabled (Kind.form .columnType).fields = t) {e : TypeExpr} :
    readColumn readType d = .ok e ↔ ∃ s i u, e = columnType s i u ∧
      t.Has "selectType" (readType · = .ok s) ∧
      ((t.Omits "insertType" ∧ i = s) ∨ t.Has "insertType" (readType · = .ok i)) ∧
      ((t.Omits "updateType" ∧ u = i) ∨ t.Has "updateType" (readType · = .ok u)) := by
  have htable := Document.readable_tabled (Kind.form .columnType).fields hd
  simp only [readColumn, bind_eq_ok_iff, required_eq_ok_iff, fields_eq_ok_iff, pure_eq_ok_iff, ht,
    ← fills_optional_iff hnull]
  rw [ht] at htable
  cases t with
  | object ms closed =>
      obtain ⟨rfl, hms⟩ := Document.closed_of_readable htable
      simp only [Document.object.injEq, and_true, exists_eq_left', members_takeColumn_iff hms,
        ColumnParts.Filled]
      constructor
      · rintro ⟨⟨_, insert, update⟩, ⟨hs, hi, hu⟩, s, rfl, rfl⟩
        exact ⟨s, _, _, rfl, fills_some_iff.mp hs, ⟨insert, hi, rfl⟩, update, hu, rfl⟩
      · rintro ⟨s, _, _, rfl, hs, ⟨insert, hi, rfl⟩, update, hu, rfl⟩
        exact ⟨⟨some s, insert, update⟩, ⟨fills_some_iff.mpr hs, hi, hu⟩, s, rfl, rfl⟩
  | _ => simp [Document.Has, Document.values, Document.members]

theorem returns_kind_readParts (k : Kind) (d : Document) :
    Returns (fun e => e.kind = k) (readParts readType k d) := by
  cases k with
  | identifier => exact (returns_true _).map fun _ _ => rfl
  | moduleReference => exact (returns_true _).map fun _ _ => rfl
  | object =>
      refine (returns_true _).bind fun ps _ => returns_built ?_
      intro e he
      obtain ⟨-, rfl⟩ := object?_eq_ok_iff.mp he
      rfl
  | union =>
      refine (returns_true _).bind fun ms _ => returns_built ?_
      intro e he
      obtain ⟨-, rfl⟩ := union?_eq_ok_iff.mp he
      rfl
  | array => exact (returns_true _).map fun _ _ => rfl
  | record => exact (returns_true _).map fun _ _ => rfl
  | columnType =>
      exact (returns_true _).bind fun c _ => (returns_true _).bind fun s _ => returns_ok rfl

theorem has_list_iff {α : Type} {read : Reader α} {S : Document → α → Prop}
    (hread : ∀ c, c.readable room = true → ∀ a, read c = .ok a ↔ S c a)
    (hd : d.readable (room + 1) = true) {key : String} {as : List α} :
    d.Has key (Reader.list read · = .ok as) ↔
      d.Has key fun v => ∃ ds, v = .array ds true ∧ List.Forall₂ S ds as := by
  refine Document.has_congr fun v hv => list_eq_ok_iff.trans ?_
  refine exists_congr fun ds => and_congr_right ?_
  rintro rfl
  have harray := Document.readable_of_mem_values hd hv
  exact items_eq_ok_iff fun c hc => hread c (Document.readable_of_mem_items harray hc)

variable (hread : ∀ v : Document, v.readable room = true → ∀ e : TypeExpr,
  readType v = .ok e ↔ Spells .kept v e)

include hread

theorem has_read_iff (hd : d.readable (room + 1) = true) {key : String} {e : TypeExpr} :
    d.Has key (readType · = .ok e) ↔ d.Has key fun v => Spells .kept v e :=
  Document.has_congr fun v hv => hread v (Document.readable_of_mem_values hd hv) e

theorem readProperty_eq_ok_iff_spells (hd : d.readable room = true) (p : String × TypeExpr) :
    readProperty m readType d = .ok p ↔ SpellsProperty d p := by
  have htable := Document.readable_tabled propertyForm.fields (Document.readable_succ d hd)
  rw [readProperty_eq_ok_iff hd, has_read_iff hread htable]
  rfl

/-- The parts of an expression of its own kind are read where the parts are spelled. -/
theorem readParts_kind_iff (hd : d.readable (room + 1) = true) (e : TypeExpr) :
    (e.kind.Marks m d ∧ readParts readType e.kind d.tail = .ok e) ↔ Spells m d e := by
  have htail := Document.readable_tail hd
  have hparts : ∀ k : Kind, (k.parts d).readable (room + 1) = true :=
    fun k => Document.readable_tabled k.form.fields htail
  have hfield : ∀ {α : Type} (k : Kind) (name : String) (read : Reader α) (a : α),
      readPart k name read d.tail = .ok a ↔ (k.parts d).Has name (read · = .ok a) :=
    fun k name read a => field_eq_ok_iff htail
  cases e with
  | identifier n =>
      simp [kind, readParts, Spells, map_eq_ok_iff, hfield, string_eq_ok_iff]
  | moduleReference r =>
      cases r
      simp [kind, readParts, Spells, map_eq_ok_iff, hfield, string_eq_ok_iff]
  | object ps =>
      have hproperties : ∀ c : Document, c.readable room = true → ∀ p,
          readProperty .kept readType c = .ok p ↔ SpellsProperty c p :=
        fun _ => readProperty_eq_ok_iff_spells hread
      simp [kind, readParts, Spells, bind_eq_ok_iff, hfield, has_list_iff hproperties (hparts _),
        built_eq_ok_iff, object?_eq_ok_iff, spellsProperties_iff, and_comm]
  | union es =>
      simp [kind, readParts, Spells, bind_eq_ok_iff, hfield, has_list_iff hread (hparts _),
        built_eq_ok_iff, union?_eq_ok_iff, spellsMembers_iff, and_comm]
  | array t =>
      simp [kind, readParts, Spells, map_eq_ok_iff, hfield, has_read_iff hread (hparts _)]
  | record t =>
      simp [kind, readParts, Spells, map_eq_ok_iff, hfield, has_read_iff hread (hparts _)]
  | columnType s i u =>
      have hnull : ∀ e, readType .null ≠ .ok e :=
        fun e he => not_spells_null .kept e ((hread .null rfl e).mp he)
      have hcolumn := @readColumn_eq_ok_iff _ _ _ htail hnull (Kind.columnType.parts d) rfl
      simp [kind, readParts, Spells, hcolumn, has_read_iff hread (hparts _)]

end Parts

/-- Of a readable document that says its kind, the parts of the kind are read. -/
theorem read_eq_readParts {m : Access} {room : Nat} {d : Document} {k : Kind}
    (hd : d.readable (room + 1) = true) (hk : k.Marks m d) :
    read m (room + 1) d = readParts (read .kept room) k d.tail := by
  rw [read, readMark_eq_ok_iff.mpr ⟨hd, hk⟩]
  rfl

theorem read_zero_ne_ok (m : Access) (d : Document) (e : TypeExpr) : read m 0 d ≠ .ok e := by
  cases d <;> simp [read]

/-- Of the documents that are readable with the room, reading accepts those that spell an
expression, and gives the expression. -/
theorem read_eq_ok_iff {m : Access} {room : Nat} {d : Document} {e : TypeExpr} :
    read m room d = .ok e ↔ d.readable room = true ∧ Spells m d e := by
  induction room generalizing m d e with
  | zero =>
      exact iff_of_false (read_zero_ne_ok m d e) fun h => h.2.marks.not_readable_zero h.1
  | succ room ih =>
      have hread : ∀ v : Document, v.readable room = true → ∀ e : TypeExpr,
          read .kept room v = .ok e ↔ Spells .kept v e := by
        intro v hv e
        rw [ih, and_iff_right hv]
      constructor
      · intro h
        obtain ⟨k, hmark, hparts⟩ := bind_eq_ok_iff.mp h
        obtain ⟨hd, hk⟩ := readMark_eq_ok_iff.mp hmark
        obtain rfl := returns_kind_readParts k _ e hparts
        exact ⟨hd, (readParts_kind_iff hread hd e).mp ⟨hk, hparts⟩⟩
      · rintro ⟨hd, hs⟩
        obtain ⟨hk, hparts⟩ := (readParts_kind_iff hread hd e).mpr hs
        rw [read_eq_readParts hd hk, hparts]

/-- A text is read as an expression exactly if it denotes a readable document that spells
the expression. -/
theorem ofText_eq_ok_iff {text : String} {e : TypeExpr} :
    ofText text = .ok e ↔
      ∃ d, Json.Denotes text d ∧ d.readable maxNesting = true ∧ Spells .text d e := by
  simp only [ofText, whole, bind_eq_ok_iff, ended_eq_ok_iff, read_eq_ok_iff]
  constructor
  · rintro ⟨_, ⟨hd, hs⟩, hended, rfl⟩
    have hsource : Json.source text = ⟨(Json.source text).document, true⟩ := by
      rw [← hended]
    exact ⟨_, Json.denotes_of_source hsource (Document.intact_of_readable _ hd), hd, hs⟩
  · rintro ⟨d, hdenotes, hd, hs⟩
    rw [Json.source_of_denotes hdenotes]
    exact ⟨e, ⟨hd, hs⟩, rfl, rfl⟩

end TypeExpr

end DialectTypes
