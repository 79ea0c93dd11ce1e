import DialectTypes.Proofs.Construction
import DialectTypes.Proofs.Nesting
import DialectTypes.Proofs.Occurrence

/-!
# Reading undoes writing

The text of an expression, an object, a module reference or an adapter is read
as the value that was written, if the value was made in one of the ways there are
and its text does not nest deeper than reading allows. The texts themselves are
read at any depth, so what remains is to follow the readers through the document
of a written value, with room for its nesting.
-/

namespace DialectTypes

open Json Reader

namespace TypeExpr

theorem document_tagged (k : Kind) (parts : List (String × Value)) :
    (tagged k parts).document = .object
      ((some "kind", .string (some k.tag)) :: parts.map fun p => (some p.1, p.2.document))
      true := by
  simp [tagged, Value.document, Value.memberDocuments_eq]

theorem nesting_tagged (k : Kind) (parts : List (String × Value)) :
    (tagged k parts).nesting = Value.memberNesting parts + 1 := by
  simp [tagged, Value.nesting, Value.memberNesting]

theorem document_array_map {α : Type} (as : List α) (write : α → Value) :
    (Value.array (as.map write)).document = .array (as.map fun a => (write a).document) true := by
  simp [Value.document, Value.itemDocuments_eq]

theorem nesting_property_le {ps : List (String × TypeExpr)} {p : String × TypeExpr}
    (hp : p ∈ ps) : p.2.toJson.nesting + 2 ≤ (Value.array (propertiesToJson ps)).nesting := by
  have hitem : (Value.object [("name", .string p.1), ("type", p.2.toJson)]).nesting ≤
      Value.itemNesting (propertiesToJson ps) := by
    apply Value.nesting_le_itemNesting
    rw [propertiesToJson_eq]
    exact List.mem_map_of_mem hp
  simp only [Value.nesting, Value.memberNesting] at hitem ⊢
  omega

/-- The types below an expression nest less than the expression. -/
theorem nesting_child_lt {e c : TypeExpr} (h : c ∈ e.children) :
    c.toJson.nesting < e.toJson.nesting := by
  cases e with
  | identifier _ => exact absurd h List.not_mem_nil
  | moduleReference _ => exact absurd h List.not_mem_nil
  | object ps =>
      obtain ⟨p, hp, rfl⟩ := List.mem_map.mp h
      have := nesting_property_le hp
      simp only [toJson, nesting_tagged, Value.memberNesting]
      omega
  | union ms =>
      have hitem : c.toJson.nesting ≤ Value.itemNesting (membersToJson ms) := by
        apply Value.nesting_le_itemNesting
        rw [membersToJson_eq]
        exact List.mem_map_of_mem h
      simp only [toJson, nesting_tagged, Value.nesting, Value.memberNesting]
      omega
  | array t =>
      obtain rfl : c = t := by simpa [children] using h
      simp only [toJson, nesting_tagged, Value.memberNesting]
      omega
  | record t =>
      obtain rfl : c = t := by simpa [children] using h
      simp only [toJson, nesting_tagged, Value.memberNesting]
      omega
  | columnType s i u =>
      have hsiu : c = s ∨ c = i ∨ c = u := by simpa [children] using h
      simp only [toJson, nesting_tagged, Value.memberNesting]
      rcases hsiu with rfl | rfl | rfl <;> omega

/-- Once the kind is known, the parts are read from the same document. -/
theorem read_tagged (m : Access) {k : Kind} {parts : List (String × Value)} {room : Nat}
    (hk : ∀ p ∈ parts, p.1 ≠ "kind") (hn : Value.memberNesting parts ≤ room) :
    read m (room + 1) (tagged k parts).document =
      readParts (read .kept room) k (tagged k parts).document := by
  have hrest : members (takeKind m room) (parts.map fun p => (some p.1, p.2.document)) (some k) =
      .ok (some k) := by
    apply members_eq_self
    intro n hn'
    obtain ⟨p, hp, rfl⟩ := List.mem_map.mp hn'
    have hroom : p.2.document.readable room = true :=
      (Value.readable_document p.2 room).mpr
        (Nat.le_trans (Value.nesting_le_memberNesting hp) hn)
    exact ⟨p.1, rfl, by rw [takeKind, if_neg (hk p hp), if_pos hroom]⟩
  have htake : takeKind m room none "kind" (.string (some k.tag)) = .ok (some k) := by
    simp [takeKind, once, readKind, oneOf]
  have hmark : readMark m room (tagged k parts).document = .ok k := by
    rw [document_tagged]
    change (members (takeKind m room) (_ :: _) none >>= ended true) >>= required _ = _
    rw [members_cons, htake, ok_bind, hrest]
    rfl
  rw [read, hmark, document_tagged]
  rfl

/-- The only part of an expression is read where it stands. -/
theorem readPart_tagged {α : Type} (k : Kind) {name : String} (hname : name ≠ "kind")
    (read : Reader α) (v : Value) :
    readPart k name read (tagged k [(name, v)]).document = read v.document := by
  have hkind : ∀ m ∈ [(some "kind", Document.string (some k.tag))],
      ∃ key, m.1 = some key ∧ key ≠ name ∧ m.2.intact = true := by
    simp [Ne.symm hname, Document.intact]
  rw [document_tagged]
  exact field_object .kept k.form read v.document hkind (by simp)

/-- A property is read if its type is. -/
theorem readProperty_document (m : Access) {readType : Reader TypeExpr} {name : String}
    {t : TypeExpr} (h : readType t.toJson.document = .ok t) :
    readProperty m readType
        (Value.object [("name", .string name), ("type", t.toJson)]).document = .ok (name, t) := by
  have hname : PropertyParts.take readType {} "name" (.string (some name)) =
      .ok { name := some name } := by
    simp [PropertyParts.take, once, Reader.string]
  have htype : PropertyParts.take readType { name := some name } "type" t.toJson.document =
      .ok { name := some name, type := some t } := by
    simp [PropertyParts.take, once, h]
  simp only [Value.document, Value.memberDocuments]
  rw [readProperty, fields_object, members_cons, hname, ok_bind, members_cons, htype]
  rfl

/-- A written expression is not null, so an optional one is read as one that is there. -/
theorem optional_document {readType : Reader TypeExpr} {t : TypeExpr}
    (h : readType t.toJson.document = .ok t) :
    Reader.optional readType t.toJson.document = .ok (some t) := by
  have hsome : Reader.optional readType t.toJson.document =
      some <$> readType t.toJson.document := by
    cases t <;> rfl
  rw [hsome, h, ok_map]

/-- A column type is read if the types of its directions are. -/
theorem readColumn_document {readType : Reader TypeExpr} {s i u : TypeExpr}
    (hs : readType s.toJson.document = .ok s) (hi : readType i.toJson.document = .ok i)
    (hu : readType u.toJson.document = .ok u) :
    readColumn readType (toJson (columnType s i u)).document = .ok (columnType s i u) := by
  have hkind : ColumnParts.take readType {} "kind" (.string (some Kind.columnType.tag)) =
      .ok {} := rfl
  have hselect : ColumnParts.take readType {} "selectType" s.toJson.document =
      .ok { select := some s } := by
    simp [ColumnParts.take, once, hs]
  have hinsert : ColumnParts.take readType { select := some s } "insertType" i.toJson.document =
      .ok { select := some s, insert := some (some i) } := by
    simp [ColumnParts.take, once, optional_document hi]
  have hupdate : ColumnParts.take readType { select := some s, insert := some (some i) }
      "updateType" u.toJson.document =
      .ok { select := some s, insert := some (some i), update := some (some u) } := by
    simp [ColumnParts.take, once, optional_document hu]
  rw [toJson, document_tagged, readColumn, fields_object]
  simp only [List.map_cons, List.map_nil]
  rw [members_cons, hkind, ok_bind, members_cons, hselect, ok_bind, members_cons, hinsert,
    ok_bind, members_cons, hupdate]
  rfl

theorem exists_toJson_eq_tagged (e : TypeExpr) :
    ∃ parts, e.toJson = tagged e.kind parts ∧ ∀ p ∈ parts, p.1 ≠ "kind" := by
  cases e <;> exact ⟨_, rfl, by simp⟩

/-- The parts of a well-formed expression are read from its document if the
expressions below it are read from theirs. -/
theorem readParts_document {readType : Reader TypeExpr} {e : TypeExpr} (hw : e.WellFormed)
    (h : ∀ c ∈ e.children, readType c.toJson.document = .ok c) :
    readParts readType e.kind e.toJson.document = .ok e := by
  cases e with
  | identifier n =>
      change identifier <$> readPart .identifier "name" Reader.string (tagged _ [_]).document = _
      rw [readPart_tagged _ (by decide)]
      rfl
  | moduleReference m =>
      change (moduleReference ⟨·⟩) <$>
        readPart .moduleReference "specifier" Reader.string (tagged _ [_]).document = _
      rw [readPart_tagged _ (by decide)]
      rfl
  | object ps =>
      have hps : list (readProperty .kept readType) (Value.array (propertiesToJson ps)).document =
          .ok ps := by
        rw [propertiesToJson_eq, document_array_map]
        apply list_map
        intro p hp
        exact readProperty_document .kept (h p.2 (List.mem_map_of_mem hp))
      change (readPart .object "properties" (list (readProperty .kept readType))
        (tagged _ [_]).document >>= fun ps => built (object? ps)) = _
      rw [readPart_tagged _ (by decide), hps, ok_bind, object?_eq_ok_iff.mpr ⟨hw.1, rfl⟩]
      rfl
  | union ms =>
      have hms : list readType (Value.array (membersToJson ms)).document = .ok ms := by
        rw [membersToJson_eq, document_array_map]
        exact list_map h
      change (readPart .union "members" (list readType) (tagged _ [_]).document >>=
        fun ms => built (union? ms)) = _
      rw [readPart_tagged _ (by decide), hms, ok_bind, union?_eq_ok_iff.mpr ⟨hw.1, rfl⟩]
      rfl
  | array t =>
      change array <$> readPart .array "element" readType (tagged _ [_]).document = _
      rw [readPart_tagged _ (by decide), h t (by simp [children])]
      rfl
  | record t =>
      change record <$> readPart .record "value" readType (tagged _ [_]).document = _
      rw [readPart_tagged _ (by decide), h t (by simp [children])]
      rfl
  | columnType s i u =>
      exact readColumn_document (h s (by simp [children])) (h i (by simp [children]))
        (h u (by simp [children]))

/-- A well-formed expression is read from its document wherever there is room for it. -/
theorem read_document (m : Access) {e : TypeExpr} (hw : e.WellFormed) {room : Nat}
    (hn : e.toJson.nesting ≤ room) : read m room e.toJson.document = .ok e := by
  induction e using byChildren generalizing m room with
  | h e ih =>
      obtain ⟨parts, hparts, hkind⟩ := exists_toJson_eq_tagged e
      have hnest : Value.memberNesting parts + 1 ≤ room := by
        rw [hparts, nesting_tagged] at hn
        exact hn
      cases room with
      | zero => omega
      | succ room =>
          have hread : read m (room + 1) e.toJson.document =
              readParts (read .kept room) e.kind e.toJson.document := by
            rw [hparts]
            exact read_tagged m hkind (by omega)
          rw [hread]
          apply readParts_document hw
          intro c hc
          have := nesting_child_lt hc
          exact ih c hc .kept (hw.child hc) (by omega)

/-- The text of a well-formed expression is read as the expression. -/
theorem ofText_text {e : TypeExpr} (hw : e.WellFormed) (hn : Json.nesting e.text ≤ maxNesting) :
    ofText e.text = .ok e := by
  rw [text, Value.nesting_text] at hn
  rw [ofText, text, Value.source_text, whole, read_document .text hw hn]
  rfl

end TypeExpr

/-- The only member of an object is read where it stands. -/
theorem field_single {α : Type} (f : Form) {name : String} (read : Reader α) (v : Value) :
    field .text f name read (Value.object [(name, v)]).document = read v.document := by
  have hnone : ∀ m ∈ ([] : List (Option String × Document)),
      ∃ key, m.1 = some key ∧ key ≠ name ∧ m.2.intact = true := by
    simp
  exact field_object .text f read v.document hnone hnone

theorem ModuleRef.read_document (m : ModuleRef) : ModuleRef.read m.toJson.document = .ok m := by
  rw [ModuleRef.read, ModuleRef.toJson, field_single]
  rfl

theorem ModuleRef.ofText_text (m : ModuleRef) : ModuleRef.ofText m.text = .ok m := by
  rw [ModuleRef.ofText, ModuleRef.text, Value.source_text, whole, ModuleRef.read_document]
  rfl

namespace ObjectExpr

theorem ofText_text {o : ObjectExpr} (hw : o.WellFormed)
    (hn : Json.nesting o.text ≤ maxNesting) : ofText o.text = .ok o := by
  obtain ⟨hnd, hps⟩ := wellFormed_iff.mp hw
  rw [text, Value.nesting_text, toJson, Value.nesting, Value.memberNesting] at hn
  have hlist : list (TypeExpr.readProperty .text (TypeExpr.read .text (maxNesting - 3)))
      (Value.array (TypeExpr.propertiesToJson o.properties)).document = .ok o.properties := by
    rw [TypeExpr.propertiesToJson_eq, TypeExpr.document_array_map]
    apply list_map
    intro p hp
    have := TypeExpr.nesting_property_le hp
    exact TypeExpr.readProperty_document .text
      (TypeExpr.read_document .text (hps p hp) (by omega))
  rw [ofText, text, Value.source_text, whole, read, toJson, field_single, hlist, ok_bind,
    ofList?_eq_ok_iff.mpr ⟨hnd, rfl⟩]
  rfl

end ObjectExpr

theorem Dialect.read_document (d : Dialect) : Dialect.read (.string (some d.name)) = .ok d := by
  rw [Dialect.read, variant, oneOf, ofName?_name]

theorem Registry.document_toJson {α : Type} (r : Registry α) (write : α → Value) :
    (r.toJson write).document =
      .object (r.entries.map fun e => (some e.1, (write e.2).document)) true := by
  simp [Registry.toJson, Value.document, Value.memberDocuments_eq]

namespace Adapter

/-- The types of a registry are read where there is room for the registry. -/
theorem readTypes_document {r : Registry TypeExpr}
    (hw : ∀ n t, r.get? n = some t → t.WellFormed)
    (hn : (r.toJson TypeExpr.toJson).nesting ≤ maxNesting - 1) :
    readTypes (r.toJson TypeExpr.toJson).document = .ok r := by
  have hentries : ∀ e ∈ r.entries,
      TypeExpr.read .text (maxNesting - 2) e.2.toJson.document = .ok e.2 := by
    intro e he
    apply TypeExpr.read_document .text (hw e.1 e.2 (Registry.get?_eq_some_iff.mpr he))
    have hmem : (e.1, e.2.toJson) ∈ r.entries.map fun e => (e.1, e.2.toJson) :=
      List.mem_map_of_mem he
    rw [Registry.toJson, Value.nesting] at hn
    calc
      e.2.toJson.nesting ≤ Value.memberNesting (r.entries.map fun e => (e.1, e.2.toJson)) :=
        Value.nesting_le_memberNesting hmem
      _ ≤ maxNesting - 2 := by omega
  rw [Registry.document_toJson, readTypes]
  exact registry_entries (fun t : TypeExpr => t.toJson.document) hentries

theorem readSchemas_document (schemas : List String) :
    list Reader.string (Value.array (schemas.map .string)).document = .ok schemas := by
  rw [TypeExpr.document_array_map]
  exact list_map fun _ _ => rfl

theorem readImports_document (r : Registry ModuleRef) :
    registry ModuleRef.read (r.toJson ModuleRef.toJson).document = .ok r := by
  rw [Registry.document_toJson]
  have hentries : ∀ e ∈ r.entries, ModuleRef.read e.2.toJson.document = .ok e.2 :=
    fun e _ => e.2.read_document
  exact registry_entries (fun m : ModuleRef => m.toJson.document) hentries

/-- Each member of a written adapter adds its part to what is read so far. -/
theorem read_document {a : Adapter} (hw : a.WellFormed) (hn : a.toJson.nesting ≤ maxNesting) :
    read a.toJson.document = .ok a := by
  rw [toJson, Value.nesting] at hn
  simp only [Value.memberNesting] at hn
  have hdeep : a.defaultScalar.toJson.nesting ≤ maxNesting - 1 := by omega
  have hdeeps : (a.scalars.toJson TypeExpr.toJson).nesting ≤ maxNesting - 1 := by omega
  have hdeepd : (a.definitions.toJson TypeExpr.toJson).nesting ≤ maxNesting - 1 := by omega
  have hdialect : ∀ p : Parts, p.dialect = none →
      p.take "dialect" (Value.string a.dialect.name).document =
        .ok { p with dialect := some a.dialect } := by
    intro p hp
    simp [Parts.take, hp, once, Value.document, a.dialect.read_document]
  have hdefault : ∀ p : Parts, p.defaultScalar = none →
      p.take "defaultScalar" a.defaultScalar.toJson.document =
        .ok { p with defaultScalar := some a.defaultScalar } := by
    intro p hp
    simp [Parts.take, hp, once, TypeExpr.read_document .text hw.defaultScalar hdeep]
  have hschemas : ∀ p : Parts, p.defaultSchemas = none →
      p.take "defaultSchemas" (Value.array (a.defaultSchemas.map .string)).document =
        .ok { p with defaultSchemas := some a.defaultSchemas } := by
    intro p hp
    simp [Parts.take, hp, once, readSchemas_document]
  have hscalars : ∀ p : Parts, p.scalars = none →
      p.take "scalars" (a.scalars.toJson TypeExpr.toJson).document =
        .ok { p with scalars := some a.scalars } := by
    intro p hp
    simp [Parts.take, hp, once, readTypes_document hw.scalars hdeeps]
  have hdefinitions : ∀ p : Parts, p.definitions = none →
      p.take "definitions" (a.definitions.toJson TypeExpr.toJson).document =
        .ok { p with definitions := some a.definitions } := by
    intro p hp
    simp [Parts.take, hp, once, readTypes_document hw.definitions hdeepd]
  have himports : ∀ p : Parts, p.imports = none →
      p.take "imports" (a.imports.toJson ModuleRef.toJson).document =
        .ok { p with imports := some a.imports } := by
    intro p hp
    simp [Parts.take, hp, once, readImports_document]
  rw [read, toJson, Value.document, fields_object]
  simp only [Value.memberDocuments]
  rw [members_cons, hdialect _ rfl, ok_bind, members_cons, hdefault _ rfl, ok_bind, members_cons,
    hschemas _ rfl, ok_bind, members_cons, hscalars _ rfl, ok_bind, members_cons,
    hdefinitions _ rfl, ok_bind, members_cons, himports _ rfl]
  rfl

theorem ofText_text {a : Adapter} (hw : a.WellFormed) (hn : Json.nesting a.text ≤ maxNesting) :
    ofText a.text = .ok a := by
  rw [text, Value.nesting_text] at hn
  rw [ofText, text, Value.source_text, whole, read_document hw hn]
  rfl

end Adapter

/-- Whatever can be made is read back from its text, if the text is not too deep to
be read. -/
theorem reading_undoes_writing :
    (∀ e : TypeExpr, e.Constructed → Json.nesting e.text ≤ maxNesting →
        TypeExpr.ofText e.text = .ok e) ∧
      (∀ o : ObjectExpr, o.Constructed → Json.nesting o.text ≤ maxNesting →
        ObjectExpr.ofText o.text = .ok o) ∧
      (∀ m : ModuleRef, ModuleRef.ofText m.text = .ok m) ∧
      ∀ a : Adapter, a.Constructed → Json.nesting a.text ≤ maxNesting →
        Adapter.ofText a.text = .ok a := by
  refine ⟨?_, ?_, ?_, ?_⟩
  · intro e he hn
    exact TypeExpr.ofText_text he.wellFormed hn
  · intro o ho hn
    exact ObjectExpr.ofText_text ho.wellFormed hn
  · intro m
    exact m.ofText_text
  · intro a ha hn
    exact Adapter.ofText_text ha.wellFormed hn

/-- A column type with three different types, and names that are escaped, empty or like a
key. -/
def escapedColumn : TypeExpr :=
  .columnType (.identifier "\"\\\n\x01")
    (.union [.identifier "", .moduleReference ⟨"kind"⟩])
    (.record (.object [("kind", .array (.identifier "é")), ("", .identifier "null")]))

/-- An adapter with such names under which it has types. -/
def escapedAdapter : Adapter :=
  .ofChanges .sqlite [.scalar "\t" escapedColumn, .definition "" (.identifier "kind"),
    .defaultSchemas ["\"", ""], .imported "\x7f" "\\"]

theorem constructed_escapedColumn : escapedColumn.Constructed := by
  apply TypeExpr.constructed_of_wellFormed
  simp [escapedColumn, TypeExpr.WellFormed, TypeExpr.WellFormedMembers,
    TypeExpr.WellFormedProperties]

theorem escaped_names_read_back :
    escapedColumn.Constructed ∧ Json.nesting escapedColumn.text ≤ maxNesting ∧
      TypeExpr.ofText escapedColumn.text = .ok escapedColumn ∧
    (ObjectExpr.empty.set "\"" escapedColumn).Constructed ∧
      Json.nesting (ObjectExpr.empty.set "\"" escapedColumn).text ≤ maxNesting ∧
      ObjectExpr.ofText (ObjectExpr.empty.set "\"" escapedColumn).text =
        .ok (ObjectExpr.empty.set "\"" escapedColumn) ∧
    ModuleRef.ofText (ModuleRef.mk "\\u0000").text = .ok ⟨"\\u0000"⟩ ∧
    escapedAdapter.Constructed ∧ Json.nesting escapedAdapter.text ≤ maxNesting ∧
      Adapter.ofText escapedAdapter.text = .ok escapedAdapter := by
  have hcolumn := constructed_escapedColumn
  have hobject : (ObjectExpr.empty.set "\"" escapedColumn).Constructed :=
    .set .empty "\"" hcolumn
  have hadapter : escapedAdapter.Constructed := by
    simp only [escapedAdapter, Adapter.ofChanges, List.foldl_cons, List.foldl_nil]
    refine .apply (.apply (.apply (.apply (.blank .sqlite) ?_) ?_) ?_) ?_
    · simpa [Adapter.Change.types] using hcolumn
    · simpa [Adapter.Change.types] using TypeExpr.Constructed.identifier "kind"
    · simp [Adapter.Change.types]
    · simp [Adapter.Change.types]
  have hcolumnDepth : Json.nesting escapedColumn.text ≤ maxNesting := by
    rw [TypeExpr.text, Value.nesting_text]
    decide
  have hobjectDepth : Json.nesting (ObjectExpr.empty.set "\"" escapedColumn).text ≤ maxNesting := by
    rw [ObjectExpr.text, Value.nesting_text]
    decide
  have hadapterDepth : Json.nesting escapedAdapter.text ≤ maxNesting := by
    rw [Adapter.text, Value.nesting_text]
    decide
  obtain ⟨hexpr, hobj, hmod, hadapt⟩ := reading_undoes_writing
  exact ⟨hcolumn, hcolumnDepth, hexpr _ hcolumn hcolumnDepth, hobject, hobjectDepth,
    hobj _ hobject hobjectDepth, hmod _, hadapter, hadapterDepth, hadapt _ hadapter hadapterDepth⟩

end DialectTypes
