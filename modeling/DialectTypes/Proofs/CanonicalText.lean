import DialectTypes.Adapter.Json
import DialectTypes.Json.Written
import DialectTypes.Proofs.ChangeLog
import Mathlib.Data.List.Basic

/-!
# One text for each value

Two expressions, or two adapters, have the same text only if they are equal. A
text is read as the document of what was written, at any depth of nesting, so it
remains that a document tells its value and a written value tells what it was
written for. Each of these steps follows the tree.

The text of an adapter lists its entries by their names. So it does not tell in
which order they were put in, and it tells everything that the adapter holds.
-/

namespace DialectTypes

namespace Json.Value

mutual

/-- A document tells of which value it is. -/
theorem document_inj : ∀ v w : Value, v.document = w.document ↔ v = w
  | bool _, w | string _, w => by cases w <;> simp [document]
  | array vs, w => by cases w <;> simp [document, itemDocuments_inj vs]
  | object ms, w => by cases w <;> simp [document, memberDocuments_inj ms]

theorem itemDocuments_inj :
    ∀ vs ws : List Value, itemDocuments vs = itemDocuments ws ↔ vs = ws
  | [], ws => by cases ws <;> simp [itemDocuments]
  | v :: vs, ws => by
      cases ws <;> simp [itemDocuments, document_inj v, itemDocuments_inj vs]

theorem memberDocuments_inj :
    ∀ ms ns : List (String × Value), memberDocuments ms = memberDocuments ns ↔ ms = ns
  | [], ns => by cases ns <;> simp [memberDocuments]
  | (k, v) :: ms, ns => by
      cases ns <;>
        simp [memberDocuments, document_inj v, memberDocuments_inj ms, Prod.ext_iff]

end

/-- A text tells of which value it is, however deep the value nests. -/
theorem text_inj {v w : Value} : v.text = w.text ↔ v = w := by
  constructor
  · intro h
    have hsource : Source.mk v.document true = Source.mk w.document true :=
      calc
        Source.mk v.document true = Json.source v.text := (source_text v).symm
        _ = Json.source w.text := by rw [h]
        _ = Source.mk w.document true := source_text w
    exact (document_inj v w).mp (Source.mk.inj hsource).1
  · rintro rfl
    rfl

end Json.Value

open Json (Value)

theorem ModuleRef.specifier_inj {m n : ModuleRef} : m.specifier = n.specifier ↔ m = n := by
  cases m
  cases n
  simp

theorem ModuleRef.toJson_injective : Function.Injective ModuleRef.toJson := fun m n h => by
  simpa [ModuleRef.toJson, ModuleRef.specifier_inj] using h

namespace TypeExpr

mutual

/-- What is written for an expression tells the kind of its root and its parts. -/
theorem toJson_inj : ∀ e f : TypeExpr, e.toJson = f.toJson ↔ e = f
  | identifier _, f => by cases f <;> simp [toJson, tagged, Kind.tag]
  | moduleReference _, f => by
      cases f <;> simp [toJson, tagged, Kind.tag, ModuleRef.specifier_inj]
  | object ps, f => by cases f <;> simp [toJson, tagged, Kind.tag, propertiesToJson_inj ps]
  | union ms, f => by cases f <;> simp [toJson, tagged, Kind.tag, membersToJson_inj ms]
  | array t, f | record t, f => by cases f <;> simp [toJson, tagged, Kind.tag, toJson_inj t]
  | columnType s i u, f => by
      cases f <;> simp [toJson, tagged, Kind.tag, toJson_inj s, toJson_inj i, toJson_inj u]

theorem membersToJson_inj :
    ∀ ms ns : List TypeExpr, membersToJson ms = membersToJson ns ↔ ms = ns
  | [], ns => by cases ns <;> simp [membersToJson]
  | m :: ms, ns => by cases ns <;> simp [membersToJson, toJson_inj m, membersToJson_inj ms]

theorem propertiesToJson_inj :
    ∀ ps qs : List (String × TypeExpr), propertiesToJson ps = propertiesToJson qs ↔ ps = qs
  | [], qs => by cases qs <;> simp [propertiesToJson]
  | (n, t) :: ps, qs => by
      cases qs <;>
        simp [propertiesToJson, toJson_inj t, propertiesToJson_inj ps, Prod.ext_iff]

end

theorem toJson_injective : Function.Injective toJson := fun e f => (toJson_inj e f).mp

theorem text_eq_iff {e f : TypeExpr} : e.text = f.text ↔ e = f := by
  rw [text, text, Value.text_inj, toJson_inj]

end TypeExpr

theorem Dialect.name_inj {d e : Dialect} : d.name = e.name ↔ d = e := by
  constructor
  · intro h
    simpa [h] using (ofName?_name d).symm
  · rintro rfl
    rfl

/-- What is written for a registry tells its entries if what is written for a value
tells the value. -/
theorem Registry.toJson_inj {α : Type} {write : α → Value} (hwrite : Function.Injective write)
    {r s : Registry α} : r.toJson write = s.toJson write ↔ r = s := by
  have hentry : Function.Injective fun e : String × α => (e.1, write e.2) := by
    intro e f h
    obtain ⟨hname, hvalue⟩ := Prod.mk.inj h
    exact Prod.ext hname (hwrite hvalue)
  obtain ⟨es, _⟩ := r
  obtain ⟨fs, _⟩ := s
  rw [Registry.toJson, Registry.toJson, Value.object.injEq, hentry.list_map.eq_iff,
    Registry.mk.injEq]

namespace Adapter

theorem toJson_inj {a b : Adapter} : a.toJson = b.toJson ↔ a = b := by
  have hstring : Function.Injective Value.string := fun _ _ => Value.string.inj
  have htypes {r s : Registry TypeExpr} :
      r.toJson TypeExpr.toJson = s.toJson TypeExpr.toJson ↔ r = s :=
    Registry.toJson_inj TypeExpr.toJson_injective
  have hsources {r s : Registry ModuleRef} :
      r.toJson ModuleRef.toJson = s.toJson ModuleRef.toJson ↔ r = s :=
    Registry.toJson_inj ModuleRef.toJson_injective
  cases a
  cases b
  simp [toJson, Dialect.name_inj, TypeExpr.toJson_inj, hstring.list_map.eq_iff, htypes, hsources]

theorem text_eq_iff {a b : Adapter} : a.text = b.text ↔ a = b := by
  rw [text, text, Value.text_inj, toJson_inj]

/-- What a log of changes leaves in a slot is what it writes there last. A slot to which
it writes nothing is as in a blank adapter. -/
def Leaves (log : List Change) (w : Write) : Prop :=
  LastWrite (log.flatMap Change.writes) w ∨
    w.slot ∉ log.flatMap Change.slots ∧
      (w = .defaultScalar (.identifier "unknown") ∨ w = .defaultSchemas [])

theorem holds_ofChanges_iff {dialect : Dialect} {log : List Change} {w : Write} :
    (ofChanges dialect log).Holds w ↔ Leaves log w := by
  rw [ofChanges, holds_foldl_apply, holds_blank_iff, Leaves]

theorem eq_iff_holds {a b : Adapter} :
    a = b ↔ a.dialect = b.dialect ∧ ∀ w, a.Holds w ↔ b.Holds w := by
  constructor
  · rintro rfl
    exact ⟨rfl, fun _ => Iff.rfl⟩
  · rintro ⟨hdialect, hholds⟩
    exact ext_holds hdialect hholds

theorem ofChanges_eq_iff {dialect other : Dialect} {log changes : List Change} :
    ofChanges dialect log = ofChanges other changes ↔
      dialect = other ∧ ∀ w, Leaves log w ↔ Leaves changes w := by
  have hlog : (ofChanges dialect log).dialect = dialect := dialect_foldl_apply log
  have hchanges : (ofChanges other changes).dialect = other := dialect_foldl_apply changes
  rw [eq_iff_holds, hlog, hchanges]
  simp only [holds_ofChanges_iff]

end Adapter

/-- Expressions are equal if their texts are, and so are adapters. Adapters of one dialect
have one text if their slots hold the same, so two logs of changes lead to one text if
they leave the same in each slot, in whatever order they write. -/
theorem text_canonical :
    (∀ e f : TypeExpr, e.text = f.text ↔ e = f) ∧
    (∀ a b : Adapter, a.text = b.text ↔ a = b) ∧
    (∀ a b : Adapter,
      a.text = b.text ↔ a.dialect = b.dialect ∧ ∀ w, a.Holds w ↔ b.Holds w) ∧
    ∀ (dialect other : Dialect) (log changes : List Adapter.Change),
      (Adapter.ofChanges dialect log).text = (Adapter.ofChanges other changes).text ↔
        dialect = other ∧ ∀ w, Adapter.Leaves log w ↔ Adapter.Leaves changes w := by
  refine ⟨?_, ?_, ?_, ?_⟩
  · intro e f
    exact TypeExpr.text_eq_iff
  · intro a b
    exact Adapter.text_eq_iff
  · intro a b
    rw [Adapter.text_eq_iff, Adapter.eq_iff_holds]
  · intro dialect other log changes
    rw [Adapter.text_eq_iff, Adapter.ofChanges_eq_iff]

end DialectTypes
