import DialectTypes.Proofs.Spelling
import Mathlib.Logic.Relation

/-!
# Other spellings of the same expression

Documents that differ only in the order of members, in members with unknown keys,
or in whether a direction of a column type is omitted or given as what it falls back
to, at any depth, spell the same expressions. Hence texts of such documents are read
alike, however they place their blanks.
-/

namespace DialectTypes

namespace Document

variable {ms ns : List (Option String × Document)} {closed : Bool} {key : String}

theorem values_perm (h : ms.Perm ns) :
    ((object ms closed).values key).Perm ((object ns closed).values key) :=
  (h.filter _).map _

theorem has_of_perm {d d' : Document} (h : (d.values key).Perm (d'.values key))
    (P : Document → Prop) : d.Has key P ↔ d'.Has key P :=
  exists_congr fun v => and_congr_left fun _ => by
    rw [← List.perm_singleton, ← List.perm_singleton]
    exact ⟨h.symm.trans, h.trans⟩

theorem omits_of_perm {d d' : Document} (h : (d.values key).Perm (d'.values key)) :
    d.Omits key ↔ d'.Omits key := by
  have hnil : d.values key = [] ↔ d'.values key = [] := by
    rw [← List.perm_nil, ← List.perm_nil]
    exact ⟨h.symm.trans, h.trans⟩
  exact or_congr hnil (has_of_perm h _)

theorem values_cons_of_ne {other : String} (h : other ≠ key) (v : Document) :
    (object ((some other, v) :: ms) closed).values key = (object ms closed).values key := by
  simp [values_cons, h]

theorem has_cons_of_ne {other : String} (h : other ≠ key) {v : Document} {P : Document → Prop} :
    (object ((some other, v) :: ms) closed).Has key P ↔ (object ms closed).Has key P := by
  rw [Has, Has, values_cons_of_ne h]

theorem omits_cons_of_ne {other : String} (h : other ≠ key) {v : Document} :
    (object ((some other, v) :: ms) closed).Omits key ↔ (object ms closed).Omits key := by
  rw [Omits, Omits, values_cons_of_ne h, has_cons_of_ne h]

theorem has_iff_of_values {d v : Document} (h : d.values key = [v]) {P : Document → Prop} :
    d.Has key P ↔ P v := by
  simp [Has, h]

theorem values_cons_self (v : Document) :
    (object ((some key, v) :: ms) closed).values key = v :: (object ms closed).values key := by
  simp [values_cons]

/-- A condition on one value under a key does not tell apart values that it does not tell
apart. -/
theorem has_replace {other : String} {v w : Document} {P : Document → Prop}
    (h : other = key → (P v ↔ P w)) :
    (object ((some other, v) :: ms) closed).Has key P ↔
      (object ((some other, w) :: ms) closed).Has key P := by
  by_cases hk : other = key
  · subst hk
    simp [Has, values_cons_self, ← and_assoc, and_comm, h rfl]
  · simp [Has, values_cons_of_ne hk]

theorem omits_replace {other : String} {v w : Document} (h : v = .null ↔ w = .null) :
    (object ((some other, v) :: ms) closed).Omits key ↔
      (object ((some other, w) :: ms) closed).Omits key := by
  refine or_congr ?_ (has_replace fun _ => h)
  by_cases hk : other = key
  · subst hk
    simp [values_cons_self]
  · simp [values_cons_of_ne hk]

end Document

namespace TypeExpr

/-- The key of a direction of a column type. -/
def Slot.key : Slot → String
  | select => "selectType"
  | insert => "insertType"
  | update => "updateType"

/-- Where a column type omits a direction, giving the direction as this value says the same. -/
inductive Implied (d : Document) : Slot → Document → Prop where
  | nullInsert : Implied d .insert .null
  | nullUpdate : Implied d .update .null
  | insert {v : Document} (hs : d.values "selectType" = [v]) : Implied d .insert v
  | update {v : Document} (hi : d.values "insertType" = [v]) (hv : v ≠ .null) :
      Implied d .update v
  | updateSelect {v : Document} (hi : d.Omits "insertType") (hs : d.values "selectType" = [v]) :
      Implied d .update v

mutual

/-- One change of the way in which an expression is spelled. -/
inductive Respelled : Document → Document → Prop where
  | order {ms ns : List (Option String × Document)} (h : ms.Perm ns) :
      Respelled (.object ms true) (.object ns true)
  /-- A member is added under a key that the kind of the expression does not know. -/
  | unknown {ms : List (Option String × Document)} {k : Kind} {key : String}
      (hk : k.Marks .kept (.object ms true)) (hkey : key ∉ k.keys) (v : Document) :
      Respelled (.object ms true) (.object ((some key, v) :: ms) true)
  /-- A direction that was omitted is given, as what it is without being given. -/
  | slot {ms : List (Option String × Document)} {slot : Slot} {v : Document}
      (h : Implied (.object ms true) slot v)
      (hnone : (Document.object ms true).values slot.key = []) :
      Respelled (.object ms true) (.object ((some slot.key, v) :: ms) true)
  | part {v w : Document} (h : Respelled v w) (key : String)
      (ms : List (Option String × Document)) :
      Respelled (.object ((some key, v) :: ms) true) (.object ((some key, w) :: ms) true)
  | member {v w : Document} (h : Respelled v w) (before after : List Document)
      (ms : List (Option String × Document)) :
      Respelled (.object ((some "members", .array (before ++ v :: after) true) :: ms) true)
        (.object ((some "members", .array (before ++ w :: after) true) :: ms) true)
  | property {v w : Document} (h : RespelledProperty v w) (before after : List Document)
      (ms : List (Option String × Document)) :
      Respelled (.object ((some "properties", .array (before ++ v :: after) true) :: ms) true)
        (.object ((some "properties", .array (before ++ w :: after) true) :: ms) true)

/-- One change of the way in which a property is spelled. -/
inductive RespelledProperty : Document → Document → Prop where
  | order {ms ns : List (Option String × Document)} (h : ms.Perm ns) :
      RespelledProperty (.object ms true) (.object ns true)
  | unknown {key : String} (hkey : key ∉ propertyForm.fields) (v : Document)
      (ms : List (Option String × Document)) :
      RespelledProperty (.object ms true) (.object ((some key, v) :: ms) true)
  | type {v w : Document} (h : Respelled v w) (ms : List (Option String × Document)) :
      RespelledProperty (.object ((some "type", v) :: ms) true)
        (.object ((some "type", w) :: ms) true)

end

section Same

variable {ms ns : List (Option String × Document)} {closed : Bool} {m : Access}

/-- Whether a table spells an expression hangs on the keys that the kind knows. -/
theorem spells_of_perm {e : TypeExpr}
    (h : ∀ key ∈ e.kind.keys,
      ((Document.object ms closed).values key).Perm ((Document.object ns closed).values key)) :
    Spells m (.object ms closed) e ↔ Spells m (.object ns closed) e := by
  have hhas := fun key hkey => Document.has_of_perm (h key hkey)
  have homits := fun key hkey => Document.omits_of_perm (h key hkey)
  cases e <;>
    simp only [kind, Kind.keys, Kind.form, ModuleRef.form, List.mem_cons, List.not_mem_nil,
      or_false, forall_eq_or_imp, forall_eq] at hhas homits <;>
    simp only [Spells, Kind.Marks, Kind.parts_object, hhas, homits]

theorem spellsProperty_of_perm {p : String × TypeExpr}
    (h : ∀ key ∈ propertyForm.fields,
      ((Document.object ms closed).values key).Perm ((Document.object ns closed).values key)) :
    SpellsProperty (.object ms closed) p ↔ SpellsProperty (.object ns closed) p :=
  and_congr (Document.has_of_perm (h "name" (by decide)) _)
    (Document.has_of_perm (h "type" (by decide)) _)

/-- Two values can stand for each other under a key: they say the same in every role that
a value can have there. -/
structure Interchangeable (key : String) (v w : Document) : Prop where
  mark : ∀ (m : Access) (k : Kind), k.IsMark m v ↔ k.IsMark m w
  string : ∀ s, v = .string s ↔ w = .string s
  null : v = .null ↔ w = .null
  expr : key ≠ "members" → key ≠ "properties" → ∀ e, Spells .kept v e ↔ Spells .kept w e
  members : key = "members" → ∀ es,
    (∃ ds, v = .array ds true ∧ SpellsMembers ds es) ↔
      ∃ ds, w = .array ds true ∧ SpellsMembers ds es
  properties : key = "properties" → ∀ ps,
    (∃ ds, v = .array ds true ∧ SpellsProperties ds ps) ↔
      ∃ ds, w = .array ds true ∧ SpellsProperties ds ps

theorem Interchangeable.spells_iff {key : String} {v w : Document}
    (h : Interchangeable key v w) (ms : List (Option String × Document)) (e : TypeExpr) :
    Spells m (.object ((some key, v) :: ms) true) e ↔
      Spells m (.object ((some key, w) :: ms) true) e := by
  have hmarks : ∀ k : Kind, k.Marks m (.object ((some key, v) :: ms) true) ↔
      k.Marks m (.object ((some key, w) :: ms) true) :=
    fun k => Document.has_replace fun _ => h.mark m k
  have hexpr : ∀ other : String, other ≠ "members" → other ≠ "properties" → ∀ e : TypeExpr,
      (Document.object ((some key, v) :: ms) true).Has other (fun v => Spells .kept v e) ↔
        (Document.object ((some key, w) :: ms) true).Has other fun v => Spells .kept v e :=
    fun other hm hp e => Document.has_replace fun hkey => h.expr (hkey ▸ hm) (hkey ▸ hp) e
  cases e with
  | identifier n => exact and_congr (hmarks _) (Document.has_replace fun _ => h.string _)
  | moduleReference r => exact and_congr (hmarks _) (Document.has_replace fun _ => h.string _)
  | object ps =>
      exact and_congr (hmarks _) (and_congr_right fun _ =>
        Document.has_replace fun hkey => h.properties hkey ps)
  | union es =>
      exact and_congr (hmarks _) (and_congr_right fun _ =>
        Document.has_replace fun hkey => h.members hkey es)
  | array t => exact and_congr (hmarks _) (hexpr "element" (by decide) (by decide) t)
  | record t => exact and_congr (hmarks _) (hexpr "value" (by decide) (by decide) t)
  | columnType s i u =>
      have homits : ∀ other : String,
          (Document.object ((some key, v) :: ms) true).Omits other ↔
            (Document.object ((some key, w) :: ms) true).Omits other :=
        fun other => Document.omits_replace h.null
      simp only [Spells, Kind.parts_object, hmarks, homits,
        hexpr "selectType" (by decide) (by decide), hexpr "insertType" (by decide) (by decide),
        hexpr "updateType" (by decide) (by decide)]

theorem interchangeable_object
    (h : ∀ e, Spells .kept (.object ms true) e ↔ Spells .kept (.object ns true) e)
    (key : String) : Interchangeable key (.object ms true) (.object ns true) :=
  ⟨by simp [Kind.IsMark], by simp, by simp, fun _ _ => h, by simp, by simp⟩

theorem spellsMembers_replace {v w : Document} (h : ∀ e, Spells .kept v e ↔ Spells .kept w e)
    (before after : List Document) (es : List TypeExpr) :
    SpellsMembers (before ++ v :: after) es ↔ SpellsMembers (before ++ w :: after) es := by
  induction before generalizing es with
  | nil => cases es <;> simp [SpellsMembers, h]
  | cons d before ih => cases es <;> simp [SpellsMembers, ih]

theorem spellsProperties_replace {v w : Document}
    (h : ∀ p, SpellsProperty v p ↔ SpellsProperty w p)
    (before after : List Document) (ps : List (String × TypeExpr)) :
    SpellsProperties (before ++ v :: after) ps ↔ SpellsProperties (before ++ w :: after) ps := by
  induction before generalizing ps with
  | nil =>
      cases ps with
      | nil => exact Iff.rfl
      | cons p ps => exact and_congr_left fun _ => h p
  | cons d before ih => cases ps <;> simp [SpellsProperties, ih]

theorem interchangeable_members {v w : Document}
    (h : ∀ e, Spells .kept v e ↔ Spells .kept w e) (before after : List Document) :
    Interchangeable "members" (.array (before ++ v :: after) true)
      (.array (before ++ w :: after) true) := by
  refine ⟨by simp [Kind.IsMark], by simp, by simp, by simp, ?_, by simp⟩
  intro _ es
  simpa using spellsMembers_replace h before after es

theorem interchangeable_properties {v w : Document}
    (h : ∀ p, SpellsProperty v p ↔ SpellsProperty w p) (before after : List Document) :
    Interchangeable "properties" (.array (before ++ v :: after) true)
      (.array (before ++ w :: after) true) := by
  refine ⟨by simp [Kind.IsMark], by simp, by simp, by simp, by simp, ?_⟩
  intro _ ps
  simpa using spellsProperties_replace h before after ps

end Same

section Added

variable {ms : List (Option String × Document)} {key : String} {v : Document} {m : Access}

theorem spells_added {e : TypeExpr} (hkey : key ∉ e.kind.keys) :
    Spells m (.object ms true) e ↔ Spells m (.object ((some key, v) :: ms) true) e := by
  apply spells_of_perm
  intro other hother
  have hne : key ≠ other := fun h => hkey (h ▸ hother)
  rw [Document.values_cons_of_ne hne]

theorem spells_unknown {k : Kind} (hk : k.Marks .kept (.object ms true)) (hkey : key ∉ k.keys)
    (e : TypeExpr) :
    Spells m (.object ms true) e ↔ Spells m (.object ((some key, v) :: ms) true) e := by
  by_cases he : e.kind = k
  · exact spells_added (he ▸ hkey)
  -- An expression of another kind is spelled neither before nor after.
  · have hne : key ≠ "kind" := fun h => hkey (h ▸ List.mem_cons_self)
    have hk' : k.Marks .kept (.object ((some key, v) :: ms) true) :=
      (Document.has_cons_of_ne hne).mpr hk
    exact iff_of_false (fun h => he (h.marks.kept.unique hk))
      fun h => he (h.marks.kept.unique hk')

/-- An omitted direction may be given as null or as what it is. -/
theorem spellsSlot_added {t other : TypeExpr} (hnone : (Document.object ms true).values key = [])
    (hv : v = .null ∨ Spells .kept v other) :
    SpellsSlot (.object ms true) key other t ↔
      SpellsSlot (.object ((some key, v) :: ms) true) key other t := by
  have hvalues : (Document.object ((some key, v) :: ms) true).values key = [v] := by
    rw [Document.values_cons_self, hnone]
  have hnull := not_spells_null .kept t
  rcases hv with rfl | hv
  · simp [SpellsSlot, Document.Omits, Document.Has, hnone, hvalues, hnull]
  · simp [SpellsSlot, Document.Omits, Document.Has, hnone, hvalues, hv.spells_iff]

theorem spellsSlot_cons_of_ne {t other : TypeExpr} {added : String} (h : added ≠ key) :
    SpellsSlot (.object ((some added, v) :: ms) true) key other t ↔
      SpellsSlot (.object ms true) key other t := by
  rw [SpellsSlot, SpellsSlot, Document.omits_cons_of_ne h, Document.has_cons_of_ne h]

theorem Slot.key_not_mem_keys (slot : Slot) {k : Kind} (hk : k ≠ .columnType) :
    slot.key ∉ k.keys := by
  cases slot <;> cases k <;> simp_all [Slot.key, Kind.keys, Kind.form, ModuleRef.form]

theorem Implied.insert_cases {d : Document} {s : TypeExpr} (h : Implied d .insert v)
    (hs : d.Has "selectType" fun v => Spells .kept v s) : v = .null ∨ Spells .kept v s := by
  cases h with
  | nullInsert => exact .inl rfl
  | insert hv => exact .inr ((Document.has_iff_of_values hv).mp hs)

theorem Implied.update_cases {d : Document} {s i : TypeExpr} (h : Implied d .update v)
    (hs : d.Has "selectType" fun v => Spells .kept v s) (hi : SpellsSlot d "insertType" s i) :
    v = .null ∨ Spells .kept v i := by
  cases h with
  | nullUpdate => exact .inl rfl
  | update hv hne =>
      rcases hi with ⟨hnone | hnull, -⟩ | hi
      · rw [hnone] at hv
        cases hv
      · exact absurd ((Document.has_iff_of_values hv).mp hnull) hne
      · exact .inr ((Document.has_iff_of_values hv).mp hi)
  | updateSelect ho hv =>
      rcases hi with ⟨-, rfl⟩ | hi
      · exact .inr ((Document.has_iff_of_values hv).mp hs)
      · exact absurd hi (not_spells_of_omits ho i)

/-- Giving a direction of a column type as what is implied for it changes no spelling. -/
theorem spells_column_implied {slot : Slot} (h : Implied (.object ms true) slot v)
    (hnone : (Document.object ms true).values slot.key = []) (s i u : TypeExpr) :
    Spells m (.object ms true) (.columnType s i u) ↔
      Spells m (.object ((some slot.key, v) :: ms) true) (.columnType s i u) := by
  have hne : slot.key ≠ "kind" ∧ slot.key ≠ "selectType" := by
    cases h <;> decide
  simp only [spells_columnType_iff, Kind.Marks, Kind.parts_object,
    Document.has_cons_of_ne hne.1, Document.has_cons_of_ne hne.2]
  refine and_congr_right fun _ => and_congr_right fun hs => ?_
  cases slot with
  | select => cases h
  | insert =>
      exact and_congr (spellsSlot_added hnone (h.insert_cases hs))
        (spellsSlot_cons_of_ne (by decide)).symm
  | update =>
      refine (and_congr_right fun hi => spellsSlot_added hnone (h.update_cases hs hi)).trans ?_
      exact and_congr_left fun _ => (spellsSlot_cons_of_ne (by decide)).symm

theorem spells_implied {slot : Slot} (h : Implied (.object ms true) slot v)
    (hnone : (Document.object ms true).values slot.key = []) (e : TypeExpr) :
    Spells m (.object ms true) e ↔ Spells m (.object ((some slot.key, v) :: ms) true) e := by
  cases e with
  | columnType s i u => exact spells_column_implied h hnone s i u
  | _ => exact spells_added (slot.key_not_mem_keys nofun)

end Added

theorem Respelled.isObject {d d' : Document} (h : Respelled d d') :
    ∃ ms ns, d = .object ms true ∧ d' = .object ns true := by
  cases h <;> exact ⟨_, _, rfl, rfl⟩

mutual

/-- A change of the spelling of an expression leaves it a spelling of the expression. -/
theorem Respelled.spells_iff : ∀ {d d' : Document}, Respelled d d' →
    ∀ (m : Access) (e : TypeExpr), Spells m d e ↔ Spells m d' e
  | _, _, .order h, _, _ => spells_of_perm fun _ _ => Document.values_perm h
  | _, _, .unknown hk hkey _, _, e => spells_unknown hk hkey e
  | _, _, .slot h hnone, _, e => spells_implied h hnone e
  | _, _, .part h key ms, _, e => by
      have hparts := h.spells_iff .kept
      -- Both values are tables, and a table says no more than the expression that it spells.
      obtain ⟨_, _, rfl, rfl⟩ := h.isObject
      exact (interchangeable_object hparts key).spells_iff ms e
  | _, _, .member h before after ms, _, e =>
      (interchangeable_members (h.spells_iff .kept) before after).spells_iff ms e
  | _, _, .property h before after ms, _, e =>
      (interchangeable_properties h.spellsProperty_iff before after).spells_iff ms e

theorem RespelledProperty.spellsProperty_iff : ∀ {d d' : Document}, RespelledProperty d d' →
    ∀ p, SpellsProperty d p ↔ SpellsProperty d' p
  | _, _, .order h, _ => spellsProperty_of_perm fun _ _ => Document.values_perm h
  | _, _, .unknown hkey v ms, _ => by
      apply spellsProperty_of_perm
      intro other hother
      rw [Document.values_cons_of_ne]
      rintro rfl
      exact hkey hother
  | _, _, .type h ms, p =>
      and_congr (Document.has_replace fun hkey => absurd hkey (by decide))
        (Document.has_replace fun _ => h.spells_iff .kept p.2)

end

/-- Any number of changes, made or taken back, leave a spelling of an expression one. -/
theorem spells_iff_of_eqvGen {d d' : Document} (h : Relation.EqvGen Respelled d d')
    (m : Access) (e : TypeExpr) : Spells m d e ↔ Spells m d' e := by
  induction h with
  | rel _ _ h => exact h.spells_iff m e
  | refl _ => exact Iff.rfl
  | symm _ _ _ ih => exact ih.symm
  | trans _ _ _ _ _ ih ih' => exact ih.trans ih'

theorem ofText_eq_ok_iff_of_denotes {text : String} {d : Document} (h : Json.Denotes text d)
    (hd : d.readable maxNesting = true) (e : TypeExpr) :
    ofText text = .ok e ↔ Spells .text d e := by
  rw [ofText_eq_ok_iff]
  constructor
  · rintro ⟨d', h', -, hs⟩
    rwa [h.unique h']
  · exact fun hs => ⟨d, h, hd, hs⟩

/-- A text of a readable document is read as an expression exactly if the document spells
the expression, and nothing else is read as an expression. Hence texts are read alike
that differ in the order of members, in blanks, in unknown members and in directions
that are omitted or given as what is implied for them. -/
theorem reads_exactly_the_spellings :
    (∀ (text : String) (d : Document), Json.Denotes text d → d.readable maxNesting = true →
      ∀ e, ofText text = .ok e ↔ Spells .text d e) ∧
    (∀ (text : String) (e : TypeExpr), ofText text = .ok e →
      ∃ d, Json.Denotes text d ∧ d.readable maxNesting = true ∧ Spells .text d e) ∧
    ∀ (text text' : String) (d d' : Document), Json.Denotes text d → Json.Denotes text' d' →
      d.readable maxNesting = true → d'.readable maxNesting = true →
      Relation.EqvGen Respelled d d' → ∀ e, ofText text = .ok e ↔ ofText text' = .ok e := by
  refine ⟨fun _ _ => ofText_eq_ok_iff_of_denotes, fun _ _ => ofText_eq_ok_iff.mp, ?_⟩
  intro text text' d d' h h' hd hd' hsame e
  rw [ofText_eq_ok_iff_of_denotes h hd, ofText_eq_ok_iff_of_denotes h' hd']
  exact spells_iff_of_eqvGen hsame .text e

/-- A column type with one type for all directions. -/
def shortColumnText : String :=
  "\x7b\"kind\":\"columnType\",\"selectType\":\x7b\"kind\":\"identifier\",\"name\":\"T\"\x7d\x7d"

/-- The column type with another key, a given insert type, other orders and some blanks. -/
def longColumnText : String :=
  "\x7b\"\":[], \"insertType\": \x7b\"name\":\"T\",\"kind\":\"identifier\"\x7d," ++
    "\"selectType\":\x7b\"kind\":\"identifier\",\"name\":\"T\"\x7d,\"kind\":\"columnType\" \x7d"

def identifierMembers : List (Option String × Document) :=
  [(some "kind", .string (some "identifier")), (some "name", .string (some "T"))]

def shortColumn : Document :=
  .object [(some "kind", .string (some "columnType")),
    (some "selectType", .object identifierMembers true)] true

def longColumn : Document :=
  .object [(some "", .array [] true),
    (some "insertType", .object identifierMembers.reverse true),
    (some "selectType", .object identifierMembers true),
    (some "kind", .string (some "columnType"))] true

theorem denotes_shortColumnText : Json.Denotes shortColumnText shortColumn :=
  Json.denotes_of_source (by cbv) rfl

theorem denotes_longColumnText : Json.Denotes longColumnText longColumn :=
  Json.denotes_of_source (by cbv) rfl

theorem eqvGen_shortColumn_longColumn : Relation.EqvGen Respelled shortColumn longColumn := by
  have hmarks : Kind.columnType.Marks .kept (.object [
      (some "insertType", .object identifierMembers.reverse true),
      (some "selectType", .object identifierMembers true),
      (some "kind", .string (some "columnType"))] true) := ⟨_, rfl, .inl rfl⟩
  have hreverse : Respelled (.object identifierMembers true)
      (.object identifierMembers.reverse true) := .order (.swap _ _ _)
  refine .trans _ _ _ (.rel _ _ (.order (.swap _ _ _))) ?_
  refine .trans _ _ _ (.rel _ _ (.slot (.insert rfl) rfl)) ?_
  refine .trans _ _ _ (.rel _ _ (.part hreverse _ _)) ?_
  exact .rel _ _ (.unknown hmarks (by decide) _)

theorem spells_shortColumn : Spells .text shortColumn (selectOnly (identifier "T")) := by
  have hidentifier : Spells .kept (.object identifierMembers true) (identifier "T") :=
    ⟨⟨_, rfl, .inl rfl⟩, _, rfl, rfl⟩
  exact ⟨⟨_, rfl, .inl rfl⟩, ⟨_, rfl, hidentifier⟩, .inl ⟨.inl rfl, rfl⟩, .inl ⟨.inl rfl, rfl⟩⟩

theorem short_and_long_column_read_alike :
    Json.Denotes shortColumnText shortColumn ∧ Json.Denotes longColumnText longColumn ∧
      shortColumn.readable maxNesting = true ∧ longColumn.readable maxNesting = true ∧
      Relation.EqvGen Respelled shortColumn longColumn ∧
      ofText shortColumnText = .ok (selectOnly (identifier "T")) ∧
      ofText longColumnText = .ok (selectOnly (identifier "T")) := by
  obtain ⟨hreads, -, halike⟩ := reads_exactly_the_spellings
  have hshort := (hreads _ _ denotes_shortColumnText (by decide) _).mpr spells_shortColumn
  have hlong := (halike _ _ _ _ denotes_shortColumnText denotes_longColumnText (by decide)
    (by decide) eqvGen_shortColumn_longColumn _).mp hshort
  exact ⟨denotes_shortColumnText, denotes_longColumnText, by decide, by decide,
    eqvGen_shortColumn_longColumn, hshort, hlong⟩

end TypeExpr

end DialectTypes
