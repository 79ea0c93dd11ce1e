import DialectTypes.Proofs.Nesting
import DialectTypes.Proofs.OptionReading

/-!
# Options that are read back

Options are written as a table with one member for each setting that makes them. A value
makes a setting exactly if it is what is written for that setting: the values of a choice
are written by their labels and recognized by their names, and the two agree. So the text of
options is read as the same options, and nothing is reported.
-/

namespace DialectTypes

open Reader

/-- The member that is found in a text where a setting is written. -/
def Setting.member (s : Setting) : Option String × Document :=
  (some s.key.text, s.toJson.document)

section Values

theorem readChoice_spelled {α : Type} [Choice α] [LawfulChoice α] (setting : α → Setting)
    (a : α) : readChoice setting (.string (some (Choice.spelled a))) = .ok ⟨some (setting a), []⟩ := by
  rw [LawfulChoice.spelled_eq_name]
  simp [readChoice, Reader.optional, Reader.string, ok_bind]

/-- A value of a choice makes no setting but that of the value whose name it is. -/
theorem eq_spelled_of_readChoice {α : Type} [Choice α] [LawfulChoice α] {setting : α → Setting}
    {d : Document} {t : Traced (Option Setting)} {s : Setting} (h : readChoice setting d = .ok t)
    (hs : t.value = some s) : ∃ a, s = setting a ∧ d = .string (some (Choice.spelled a)) := by
  have hnull : ∀ name, Reader.string .null ≠ .ok name := nofun
  simp only [readChoice, bind_eq_ok_iff, optional_eq_ok_iff hnull, string_eq_ok_iff] at h
  obtain ⟨o, ⟨-, rfl⟩ | ⟨name, rfl, rfl⟩, ht⟩ := h
  · cases ht
    cases hs
  · cases ha : (Choice.ofName? name : Option α) with
    | none =>
        simp only [ha, pure_eq_ok_iff] at ht
        subst ht
        cases hs
    | some a =>
        simp only [ha, pure_eq_ok_iff] at ht
        subst ht
        rw [Choice.ofName?_eq_some_iff] at ha
        exact ⟨a, (Option.some.inj hs).symm, by rw [LawfulChoice.spelled_eq_name, ha]⟩

theorem document_schemas (names : List String) :
    (Setting.defaultSchemas names).toJson.document =
      .array (names.map fun n => .string (some n)) true := by
  simp [Setting.toJson, Json.Value.document, Json.Value.itemDocuments_eq, Function.comp_def]

/-- What is written for a setting is read as the setting. -/
theorem Setting.read_document (s : Setting) :
    s.key.read s.toJson.document = .ok ⟨some s, []⟩ := by
  cases s with
  | dateParser p => exact readChoice_spelled .dateParser p
  | numericParser p => exact readChoice_spelled .numericParser p
  | timestampParser p => exact readChoice_spelled .timestampParser p
  | defaultSchemas names =>
      have hnames : list Reader.string (.array (names.map fun n => .string (some n)) true) =
          .ok names := list_map fun _ _ => rfl
      have hnull : ∀ names, list Reader.string .null ≠ .ok names := nofun
      have hoptional := (optional_eq_ok_iff hnull).mpr (Or.inr ⟨names, hnames, rfl⟩)
      rw [document_schemas]
      exact bind_eq_ok_iff.mpr ⟨some names, hoptional, rfl⟩
  | domains _ | partitions _ => rfl

namespace OptionName

variable {k : OptionName} {d : Document} {s : Setting}

/-- What is read as a setting is what is written for it. -/
theorem eq_document_of_read {t : Traced (Option Setting)} (h : k.read d = .ok t)
    (hs : t.value = some s) : d = s.toJson.document := by
  cases k with
  | dateParser | numericParser | timestampParser =>
      obtain ⟨a, rfl, hd⟩ := eq_spelled_of_readChoice h hs
      exact hd
  | defaultSchemas =>
      obtain ⟨schemas, hschemas, ht⟩ := bind_eq_ok_iff.mp h
      rw [optional_eq_ok_iff nofun] at hschemas
      obtain ⟨-, rfl⟩ | ⟨names, hnames, rfl⟩ := hschemas
      · cases ht
        cases hs
      · cases ht
        cases hs
        obtain ⟨ds, rfl, hds⟩ := list_eq_ok_iff.mp hnames
        rw [document_schemas, items_string_eq_ok_iff.mp hds]
  | domains | partitions =>
      obtain ⟨b, hb, ht⟩ := bind_eq_ok_iff.mp h
      rw [bool_eq_ok_iff] at hb
      cases ht
      cases hs
      exact hb

theorem meaning_document (s : Setting) : s.key.meaning s.toJson.document = ⟨some s, []⟩ := by
  rw [meaning, s.read_document]

/-- A value makes a setting of its option exactly if it is what is written for the setting. -/
theorem mem_meaning_iff :
    s ∈ (k.meaning d).value ↔ s.key = k ∧ d = s.toJson.document := by
  constructor
  · intro hs
    refine ⟨key_of_meaning hs, ?_⟩
    rw [meaning] at hs
    cases h : k.read d with
    | ok t =>
        rw [h] at hs
        exact eq_document_of_read h hs
    | error e =>
        rw [h] at hs
        cases hs
  · rintro ⟨rfl, rfl⟩
    rw [meaning_document]
    rfl

theorem taken_member {keys : List OptionName} (h : s.key ∈ keys) :
    taken keys s.member = ⟨some s, []⟩ := by
  have hname : ofMember? keys s.member = some s.key := mem_ofMember?_iff.mpr ⟨h, rfl⟩
  rw [taken, hname]
  exact meaning_document s

end OptionName

end Values

/-- Options that are made of their settings, of which there is one for an option at most, the
last that was made. -/
class LawfulSettings (α : Type) [Options α] : Prop where
  key_mem : ∀ o : α, ∀ s ∈ Options.settings o, s.key ∈ Options.keys α
  keys_nodup : ∀ o : α, ((Options.settings o).map Setting.key).Nodup
  ofSettings_settings : ∀ o : α, Options.ofSettings (Options.settings o) = o
  mem_settings_set : ∀ (o : α) (s t : Setting), t.key ∈ Options.keys α →
    (s ∈ Options.settings (Options.set o t) ↔ s = t ∨ s ∈ Options.settings o ∧ t.key ≠ s.key)

instance : LawfulSettings IntrospectorOptions where
  key_mem o s h := by
    cases s <;> simp_all [Options.settings, Options.keys, Setting.key]
  keys_nodup o := by
    rcases o with ⟨_ | _, _, _⟩ <;> simp [Options.settings, Setting.key]
  ofSettings_settings o := by
    rcases o with ⟨_ | _, _, _⟩ <;> rfl
  mem_settings_set o s t ht := by
    cases t with
    | dateParser | numericParser | timestampParser => simp [Options.keys, Setting.key] at ht
    | _ =>
      cases s <;> simp [Options.settings, Options.set, IntrospectorOptions.set, Setting.key, eq_comm]

instance : LawfulSettings PostgresAdapterOptions where
  key_mem o s h := by
    cases s <;> simp_all [Options.settings, Options.keys, Setting.key]
  keys_nodup o := by
    rcases o with ⟨_ | _, _ | _, _ | _⟩ <;> simp [Options.settings, Setting.key]
  ofSettings_settings o := by
    rcases o with ⟨_ | _, _ | _, _ | _⟩ <;> rfl
  mem_settings_set o s t ht := by
    cases t with
    | defaultSchemas | domains | partitions => simp [Options.keys, Setting.key] at ht
    | _ =>
      cases s <;> simp [Options.settings, Options.set, PostgresAdapterOptions.set, Setting.key,
        eq_comm]

instance : LawfulSettings PostgresOptions where
  key_mem o s h := by
    cases s <;> simp [Options.keys, OptionName.all, Setting.key]
  keys_nodup o := by
    rcases o with ⟨_ | _, _ | _, _, _ | _, _, _ | _⟩ <;> simp [Options.settings, Setting.key]
  ofSettings_settings o := by
    rcases o with ⟨_ | _, _ | _, _, _ | _, _, _ | _⟩ <;> rfl
  mem_settings_set o s t _ := by
    cases t <;> cases s <;>
      simp [Options.settings, Options.set, PostgresOptions.set, Setting.key, eq_comm]

namespace Options

open OptionName

variable {α : Type} [Options α]

theorem document_toJson (o : α) :
    (toJson o).document = .object ((settings o).map Setting.member) true := by
  simp [toJson, Json.Value.document, Json.Value.memberDocuments_eq, Function.comp_def,
    Setting.member]

variable [LawfulSettings α]

/-- The members that are written for options fit the options. -/
theorem fitsOptions_settings (o : α) :
    FitsOptions (keys α) ((settings o).map Setting.member) where
  intact := by
    rw [List.forall_mem_map]
    intro s _
    exact ⟨rfl, s.toJson.intact_document⟩
  once := by
    have hkeys := List.pairwise_map.mp (LawfulSettings.keys_nodup o)
    refine List.pairwise_map.mpr (hkeys.imp fun hne k _ hs ht => hne ?_)
    exact text_injective (Option.some.inj (hs.trans ht.symm))
  fits := by
    rw [List.forall_mem_map]
    intro s _ k _ hk
    obtain rfl := text_injective (Option.some.inj hk)
    exact exists_read_iff.mp ⟨_, s.read_document⟩

/-- These members make the options, and nothing is reported of them. -/
theorem ofMembers_settings (o : α) :
    ofMembers α ((settings o).map Setting.member) = ⟨o, []⟩ := by
  have htaken : ∀ s ∈ settings o, taken (keys α) s.member = ⟨some s, []⟩ :=
    fun s hs => taken_member (LawfulSettings.key_mem o s hs)
  have hsettings : settingsOf (keys α) ((settings o).map Setting.member) = settings o := by
    calc
      settingsOf (keys α) ((settings o).map Setting.member)
          = (settings o).flatMap fun s => (taken (keys α) s.member).value.toList :=
        List.flatMap_map ..
      _ = (settings o).flatMap fun s => [s] :=
        List.flatMap_congr fun s hs => by rw [htaken s hs]; rfl
      _ = settings o := List.flatMap_singleton' _
  have hreports : reportsOf (keys α) ((settings o).map Setting.member) = [] := by
    rw [reportsOf, List.flatMap_eq_nil_iff, List.forall_mem_map]
    intro s hs
    rw [htaken s hs]
  rw [ofMembers, hsettings, hreports, LawfulSettings.ofSettings_settings]

/-- The text of options is read as the options. -/
theorem ofJson_text (o : α) : ofJson (text o) = .ok ⟨o, []⟩ := by
  have hread : read (toJson o).document = .ok ⟨o, []⟩ := by
    rw [document_toJson]
    exact read_object_eq_ok_iff.mpr ⟨fitsOptions_settings o, (ofMembers_settings o).symm⟩
  rw [ofJson, text, Json.Value.source_text, whole, hread]
  rfl

end Options

open Options

/-- Options survive being written: whatever is set or not set, by whatever way the options
were made, their text is read as exactly these options and nothing is reported. An option
that is not set stays so, which is not the same as an empty list of schemas or as a parser
that is the driver's own habit. -/
theorem options_survive_writing :
    (∀ o : PostgresOptions, ofJson (text o) = .ok ⟨o, []⟩) ∧
    (∀ o : PostgresAdapterOptions, ofJson (text o) = .ok ⟨o, []⟩) ∧
    ∀ o : IntrospectorOptions, ofJson (text o) = .ok ⟨o, []⟩ :=
  ⟨ofJson_text, ofJson_text, ofJson_text⟩

/-- An empty list and the driver's own habit are written, and what is not set is left out. -/
example :
    text ({ dateParser := some Choice.initial, defaultSchemas := some [] } : PostgresOptions) =
      "\x7b\"dateParser\":\"timestamp\",\"defaultSchemas\":[],\"domains\":false," ++
        "\"partitions\":false\x7d" := by
  decide +kernel

end DialectTypes
