import DialectTypes.Adapter.Basic
import Mathlib.Data.Finset.Card
import Mathlib.Data.List.Sort

/-!
# What a log of changes makes

A change is a list of single writes, each to one slot of an adapter. In the adapter
that a log makes, every slot holds what was written to it last, and a slot to which
nothing is written is as it is in a blank adapter. So two changes that write to
different slots may change places, and a change that only overwrites adds no name.
-/

namespace DialectTypes

namespace Adapter

/-- The parts of an adapter that give names a value. -/
inductive Collection where
  | scalars
  | definitions
  | imports
deriving DecidableEq

/-- A place of an adapter that is written as a whole. -/
inductive Slot where
  | defaultScalar
  | defaultSchemas
  | entry (collection : Collection) (key : String)
deriving DecidableEq

/-- The name in the given part of an adapter for which a slot is. -/
def Slot.keyIn? (c : Collection) : Slot → Option String
  | .entry collection key => if collection = c then some key else none
  | _ => none

/-- What is written to one slot. -/
inductive Write where
  | defaultScalar (type : TypeExpr)
  | defaultSchemas (schemas : List String)
  | scalar (native : String) (type : TypeExpr)
  | definition (name : String) (type : TypeExpr)
  | imported (name : String) (source : ModuleRef)

def Write.slot : Write → Slot
  | .defaultScalar _ => .defaultScalar
  | .defaultSchemas _ => .defaultSchemas
  | .scalar native _ => .entry .scalars native
  | .definition name _ => .entry .definitions name
  | .imported name _ => .entry .imports name

/-- The single writes of a change, first one first. -/
def Change.writes : Change → List Write
  | .defaultScalar type => [.defaultScalar type]
  | .defaultSchemas schemas => [.defaultSchemas schemas]
  | .scalar native type => [.scalar native type]
  | .scalarsAs natives target => natives.map fun native => .scalar native (.identifier target)
  | .definition name type => [.definition name type]
  | .jsonDefinitions => TypeExpr.jsonDefinitions.map fun d => .definition d.1 d.2
  | .imported name specifier => [.imported name ⟨specifier⟩]

/-- The slots to which a change writes. -/
def Change.slots (change : Change) : List Slot :=
  change.writes.map Write.slot

/-- The names in one part of an adapter. -/
def keysOf (a : Adapter) : Collection → List String
  | .scalars => a.scalars.keys
  | .definitions => a.definitions.keys
  | .imports => a.imports.keys

/-- The slot of the write holds what the write puts there. -/
def Holds (a : Adapter) : Write → Prop
  | .defaultScalar type => a.defaultScalar = type
  | .defaultSchemas schemas => a.defaultSchemas = schemas
  | .scalar native type => a.scalars.get? native = some type
  | .definition name type => a.definitions.get? name = some type
  | .imported name source => a.imports.get? name = some source

def write (a : Adapter) : Write → Adapter
  | .defaultScalar type => { a with defaultScalar := type }
  | .defaultSchemas schemas => { a with defaultSchemas := schemas }
  | .scalar native type => a.setScalar native type
  | .definition name type => a.setDefinition name type
  | .imported name source => { a with imports := a.imports.insert name source }

section Slots

variable {a b : Adapter}

theorem holds_blank_iff (dialect : Dialect) {w : Write} :
    (blank dialect).Holds w ↔
      w = .defaultScalar (.identifier "unknown") ∨ w = .defaultSchemas [] := by
  cases w <;> simp [Holds, blank, eq_comm]

/-- A write decides what its slot holds and leaves the other slots as they are. -/
theorem holds_write {w v : Write} :
    (a.write w).Holds v ↔ if v.slot = w.slot then v = w else a.Holds v := by
  cases w <;> cases v <;>
    simp [write, Holds, Write.slot, setScalar, setDefinition, Registry.get?_insert, eq_comm] <;>
    split <;> simp_all [eq_comm]

theorem mem_keysOf_iff {c : Collection} {k : String} :
    k ∈ a.keysOf c ↔ ∃ w, a.Holds w ∧ w.slot = .entry c k := by
  constructor
  · intro hk
    cases c with
    | scalars =>
        obtain ⟨type, h⟩ := Registry.mem_keys_iff.mp hk
        exact ⟨.scalar k type, h, rfl⟩
    | definitions =>
        obtain ⟨type, h⟩ := Registry.mem_keys_iff.mp hk
        exact ⟨.definition k type, h, rfl⟩
    | imports =>
        obtain ⟨source, h⟩ := Registry.mem_keys_iff.mp hk
        exact ⟨.imported k source, h, rfl⟩
  · rintro ⟨w, h, hw⟩
    cases w <;> cases hw
    all_goals exact Registry.mem_keys_iff.mpr ⟨_, h⟩

theorem keysOf_ascending (a : Adapter) (c : Collection) : (a.keysOf c).Pairwise (· < ·) := by
  cases c <;> exact Registry.keys_ascending _

theorem keysOf_nodup (a : Adapter) (c : Collection) : (a.keysOf c).Nodup := by
  cases c <;> exact Registry.keys_nodup _

/-- The names of one part come in one order only. -/
theorem keysOf_congr {c : Collection} (h : ∀ k, k ∈ a.keysOf c ↔ k ∈ b.keysOf c) :
    a.keysOf c = b.keysOf c :=
  (a.keysOf_ascending c).eq_of_mem_iff (b.keysOf_ascending c) h

/-- Adapters of one dialect are equal if their slots hold the same. -/
theorem ext_holds (hd : a.dialect = b.dialect) (h : ∀ w, a.Holds w ↔ b.Holds w) : a = b := by
  have hscalars : a.scalars = b.scalars := by
    ext native type
    exact h (.scalar native type)
  have hdefinitions : a.definitions = b.definitions := by
    ext name type
    exact h (.definition name type)
  have himports : a.imports = b.imports := by
    ext name source
    exact h (.imported name source)
  have hscalar : a.defaultScalar = b.defaultScalar := (h (.defaultScalar _)).mpr rfl
  have hschemas : a.defaultSchemas = b.defaultSchemas := (h (.defaultSchemas _)).mpr rfl
  cases a
  cases b
  simp_all

end Slots

section LastWrites

/-- The write is in the list, and none after it is to the same slot. -/
def LastWrite (ws : List Write) (w : Write) : Prop :=
  ∃ before after, ws = before ++ w :: after ∧ w.slot ∉ after.map Write.slot

variable {ws vs : List Write} {w : Write}

theorem LastWrite.mem_slots (h : LastWrite ws w) : w.slot ∈ ws.map Write.slot := by
  obtain ⟨before, after, rfl, _⟩ := h
  simp

theorem lastWrite_append_iff :
    LastWrite (ws ++ vs) w ↔ LastWrite vs w ∨ w.slot ∉ vs.map Write.slot ∧ LastWrite ws w := by
  constructor
  · rintro ⟨before, after, h, hafter⟩
    rcases List.append_eq_append_iff.mp h with ⟨between, rfl, rfl⟩ | ⟨between, rfl, hvs⟩
    · exact Or.inl ⟨between, after, rfl, hafter⟩
    · cases between with
      | nil => exact Or.inl ⟨[], after, by simpa using hvs.symm, hafter⟩
      | cons x between =>
          rw [List.cons_append, List.cons.injEq] at hvs
          obtain ⟨rfl, rfl⟩ := hvs
          simp only [List.map_append, List.mem_append, not_or] at hafter
          exact Or.inr ⟨hafter.2, before, between, rfl, hafter.1⟩
  · rintro (⟨before, after, rfl, hafter⟩ | ⟨hvs, before, after, rfl, hafter⟩)
    · exact ⟨ws ++ before, after, by simp, hafter⟩
    · refine ⟨before, after ++ vs, by simp, ?_⟩
      rw [List.map_append, List.mem_append, not_or]
      exact ⟨hafter, hvs⟩

@[simp] theorem lastWrite_singleton_iff {v : Write} : LastWrite [v] w ↔ w = v := by
  constructor
  · rintro ⟨before, after, h, _⟩
    have hw : w ∈ [v] := h ▸ List.mem_append_right before List.mem_cons_self
    exact List.mem_singleton.mp hw
  · rintro rfl
    exact ⟨[], [], rfl, by simp⟩

/-- Where no slot is written twice, every write is the last one to its slot. -/
theorem lastWrite_of_nodup (h : (ws.map Write.slot).Nodup) (hw : w ∈ ws) :
    LastWrite ws w := by
  obtain ⟨before, after, rfl⟩ := List.append_of_mem hw
  refine ⟨before, after, rfl, ?_⟩
  rw [List.map_append, List.map_cons] at h
  exact (List.nodup_cons.mp (List.nodup_append.mp h).2.1).1

/-- A slot that is written is written last by one of the writes. -/
theorem exists_lastWrite {s : Slot} (h : s ∈ ws.map Write.slot) :
    ∃ w, LastWrite ws w ∧ w.slot = s := by
  induction ws with
  | nil => simp at h
  | cons v ws ih =>
      rw [← List.singleton_append] at h ⊢
      by_cases hs : s ∈ ws.map Write.slot
      · obtain ⟨w, hw, hws⟩ := ih hs
        exact ⟨w, lastWrite_append_iff.mpr (Or.inl hw), hws⟩
      · obtain rfl : s = v.slot := by simpa [hs] using h
        exact ⟨v, lastWrite_append_iff.mpr (Or.inr ⟨hs, by simp⟩), rfl⟩

/-- Writes that are performed one after another leave the last one in each slot. -/
theorem holds_foldl_write {a : Adapter} :
    (ws.foldl write a).Holds w ↔
      LastWrite ws w ∨ w.slot ∉ ws.map Write.slot ∧ a.Holds w := by
  induction ws generalizing a with
  | nil => simp [LastWrite]
  | cons v ws ih =>
      rw [List.foldl_cons, ih, holds_write, ← List.singleton_append, lastWrite_append_iff]
      by_cases hs : w.slot = v.slot
      · simp [hs]
      · have hne : w ≠ v := fun h => hs (h ▸ rfl)
        simp [hs, hne]

end LastWrites

section Logs

variable {a : Adapter}

theorem dialect_foldl_write (ws : List Write) : (ws.foldl write a).dialect = a.dialect := by
  induction ws generalizing a with
  | nil => rfl
  | cons w ws ih =>
      rw [List.foldl_cons, ih]
      cases w <;> rfl

theorem apply_eq_foldl_write (change : Change) : a.apply change = change.writes.foldl write a := by
  cases change with
  | scalarsAs natives target =>
      rw [Change.writes, List.foldl_map]
      rfl
  | jsonDefinitions =>
      rw [Change.writes, List.foldl_map]
      rfl
  | _ => rfl

theorem foldl_apply_eq_foldl_write (log : List Change) :
    log.foldl apply a = (log.flatMap Change.writes).foldl write a := by
  rw [List.foldl_flatMap]
  exact congrArg (fun f => log.foldl f a) (funext₂ fun _ change => apply_eq_foldl_write change)

theorem dialect_foldl_apply (log : List Change) : (log.foldl apply a).dialect = a.dialect := by
  rw [foldl_apply_eq_foldl_write, dialect_foldl_write]

theorem slots_flatMap_writes (log : List Change) :
    (log.flatMap Change.writes).map Write.slot = log.flatMap Change.slots :=
  List.map_flatMap

/-- Every slot holds what the log writes to it last, or else what it held before. -/
theorem holds_foldl_apply {log : List Change} {w : Write} :
    (log.foldl apply a).Holds w ↔
      LastWrite (log.flatMap Change.writes) w ∨
        w.slot ∉ log.flatMap Change.slots ∧ a.Holds w := by
  rw [foldl_apply_eq_foldl_write, holds_foldl_write, slots_flatMap_writes]

theorem mem_keysOf_foldl_apply {log : List Change} {c : Collection} {k : String} :
    k ∈ (log.foldl apply a).keysOf c ↔ .entry c k ∈ log.flatMap Change.slots ∨ k ∈ a.keysOf c := by
  simp only [mem_keysOf_iff, holds_foldl_apply]
  constructor
  · rintro ⟨w, hw | ⟨_, hw⟩, hs⟩
    · rw [← slots_flatMap_writes, ← hs]
      exact Or.inl hw.mem_slots
    · exact Or.inr ⟨w, hw, hs⟩
  · intro h
    by_cases hs : Slot.entry c k ∈ log.flatMap Change.slots
    · obtain ⟨w, hw, hws⟩ := exists_lastWrite (slots_flatMap_writes log ▸ hs)
      exact ⟨w, Or.inl hw, hws⟩
    · obtain ⟨w, hw, hws⟩ := h.resolve_left hs
      exact ⟨w, Or.inr ⟨hws ▸ hs, hw⟩, hws⟩

/-- Two changes that write to no common slot may change places. -/
theorem apply_comm {first second : Change} (h : first.slots.Disjoint second.slots) :
    (a.apply second).apply first = (a.apply first).apply second := by
  have hdialect := (dialect_foldl_apply (a := a) [second, first]).trans
    (dialect_foldl_apply [first, second]).symm
  refine ext_holds hdialect fun w => ?_
  have hfirst : LastWrite first.writes w → w.slot ∉ second.slots := fun hw => h hw.mem_slots
  have hsecond : LastWrite second.writes w → w.slot ∉ first.slots := fun hw hs =>
    h hs hw.mem_slots
  change ([second, first].foldl apply a).Holds w ↔ ([first, second].foldl apply a).Holds w
  rw [holds_foldl_apply, holds_foldl_apply]
  simp only [List.flatMap_cons, List.flatMap_nil, List.append_nil, lastWrite_append_iff,
    List.mem_append]
  rw [Change.slots] at hfirst hsecond
  grind [Change.slots]

end Logs

section Building

variable {dialect : Dialect} {log : List Change} {c : Collection}

theorem mem_keysOf_ofChanges {k : String} :
    k ∈ (ofChanges dialect log).keysOf c ↔ .entry c k ∈ log.flatMap Change.slots := by
  rw [ofChanges, mem_keysOf_foldl_apply]
  refine or_iff_left ?_
  cases c <;> exact List.not_mem_nil

/-- A change that writes only to names that are written already adds no name. -/
theorem keysOf_overwritten {change : Change}
    (h : ∀ k, .entry c k ∈ change.slots → .entry c k ∈ log.flatMap Change.slots) :
    (ofChanges dialect (log ++ [change])).keysOf c = (ofChanges dialect log).keysOf c := by
  apply keysOf_congr
  intro k
  rw [mem_keysOf_ofChanges, mem_keysOf_ofChanges]
  simpa using h k

/-- The number of names in one part of an adapter to which a log writes. -/
def written (log : List Change) (c : Collection) : Nat :=
  ((log.flatMap Change.slots).filterMap (Slot.keyIn? c)).toFinset.card

theorem length_keysOf_ofChanges (dialect : Dialect) :
    ((ofChanges dialect log).keysOf c).length = written log c := by
  rw [written, ← List.toFinset_card_of_nodup (keysOf_nodup _ c)]
  congr 1
  ext k
  rw [List.mem_toFinset, mem_keysOf_ofChanges, List.mem_toFinset, List.mem_filterMap]
  constructor
  · intro h
    exact ⟨_, h, by simp [Slot.keyIn?]⟩
  · rintro ⟨s, hs, hk⟩
    cases s with
    | entry collection key =>
        obtain ⟨rfl, rfl⟩ : collection = c ∧ key = k := by simpa [Slot.keyIn?] using hk
        exact hs
    | defaultScalar => cases hk
    | defaultSchemas => cases hk

theorem builtEvent_ofChanges :
    (ofChanges dialect log).builtEvent =
      .built dialect (written log .scalars) (written log .definitions) (written log .imports) := by
  have hdialect : (ofChanges dialect log).dialect = dialect := dialect_foldl_apply log
  simp only [← length_keysOf_ofChanges dialect, keysOf, Registry.length_keys,
    builtEvent, hdialect]

end Building

/-- In an adapter that is built from a log every slot holds the last write to it, or
else what a blank adapter has there, and each part has the names that are written to
it. Neighbours in the log that write to no common slot may change places, a change that
only overwrites adds no name, and the event of building counts the names written. -/
theorem built_from_last_writes (dialect : Dialect) (log : List Change) :
    (build dialect log).value.dialect = dialect ∧
    (∀ w, (build dialect log).value.Holds w ↔
      LastWrite (log.flatMap Change.writes) w ∨
        w.slot ∉ log.flatMap Change.slots ∧
          (w = .defaultScalar (.identifier "unknown") ∨ w = .defaultSchemas [])) ∧
    (∀ c k, k ∈ (build dialect log).value.keysOf c ↔ .entry c k ∈ log.flatMap Change.slots) ∧
    (∀ before first second after, log = before ++ first :: second :: after →
      first.slots.Disjoint second.slots →
      build dialect (before ++ second :: first :: after) = build dialect log) ∧
    (∀ change c, (∀ k, .entry c k ∈ change.slots → .entry c k ∈ log.flatMap Change.slots) →
      (build dialect (log ++ [change])).value.keysOf c = (build dialect log).value.keysOf c) ∧
    (build dialect log).events =
      [.built dialect (written log .scalars) (written log .definitions) (written log .imports)] := by
  refine ⟨dialect_foldl_apply log, ?_, ?_, ?_, ?_, ?_⟩
  · intro w
    rw [← holds_blank_iff dialect]
    exact holds_foldl_apply
  · intro c k
    exact mem_keysOf_ofChanges
  · rintro before first second after rfl hdisjoint
    have hchanges : ofChanges dialect (before ++ second :: first :: after) =
        ofChanges dialect (before ++ first :: second :: after) := by
      simp only [ofChanges, List.foldl_append, List.foldl_cons, apply_comm hdisjoint]
    rw [build, build, hchanges]
  · intro change c h
    exact keysOf_overwritten h
  · exact congrArg (fun event => [event]) builtEvent_ofChanges

/-- A log in which changes that write many entries and single writes overlap. -/
def overlappingLog : List Change :=
  [.scalarsAs ["integer", "real"] "number", .scalar "real" (.identifier "string"),
    .jsonDefinitions, .definition "Json" (.identifier "unknown"), .defaultSchemas ["main"]]

/-- A native type keeps its later single write, which may also stand after the JSON
definitions, and writing both native types again adds none. -/
theorem overlappingLog_built :
    (build .sqlite overlappingLog).value.Holds (.scalar "real" (.identifier "string")) ∧
    (Change.scalar "real" (.identifier "string")).slots.Disjoint Change.jsonDefinitions.slots ∧
    build .sqlite
        [.scalarsAs ["integer", "real"] "number", .jsonDefinitions,
          .scalar "real" (.identifier "string"), .definition "Json" (.identifier "unknown"),
          .defaultSchemas ["main"]] =
      build .sqlite overlappingLog ∧
    (∀ k, .entry .scalars k ∈ (Change.scalarsAs ["real", "integer"] "bigint").slots →
      .entry .scalars k ∈ overlappingLog.flatMap Change.slots) ∧
    (build .sqlite (overlappingLog ++ [.scalarsAs ["real", "integer"] "bigint"])).value.keysOf
        .scalars =
      (build .sqlite overlappingLog).value.keysOf .scalars ∧
    (build .sqlite overlappingLog).events = [.built .sqlite 2 5 0] := by
  obtain ⟨_, hholds, _, hexchange, hoverwrite, hevents⟩ :=
    built_from_last_writes .sqlite overlappingLog
  have hlast : LastWrite (overlappingLog.flatMap Change.writes)
      (.scalar "real" (.identifier "string")) :=
    ⟨[.scalar "integer" (.identifier "number"), .scalar "real" (.identifier "number")], _, rfl,
      by decide⟩
  have hdisjoint : (Change.scalar "real" (.identifier "string")).slots.Disjoint
      Change.jsonDefinitions.slots := by
    intro s hs hjson
    obtain rfl : s = .entry .scalars "real" := List.mem_singleton.mp hs
    exact absurd hjson (by decide)
  have hwritten : ∀ k, .entry .scalars k ∈ (Change.scalarsAs ["real", "integer"] "bigint").slots →
      .entry .scalars k ∈ overlappingLog.flatMap Change.slots := by
    have hall : ∀ s ∈ (Change.scalarsAs ["real", "integer"] "bigint").slots,
        s ∈ overlappingLog.flatMap Change.slots := by decide
    exact fun k => hall _
  refine ⟨(hholds _).mpr (Or.inl hlast), hdisjoint, ?_, hwritten, ?_, ?_⟩
  · exact hexchange [.scalarsAs ["integer", "real"] "number"] _ _ _ rfl hdisjoint
  · exact hoverwrite _ _ hwritten
  · exact hevents

end Adapter

end DialectTypes
