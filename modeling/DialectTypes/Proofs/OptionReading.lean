import DialectTypes.Options.Toml
import DialectTypes.Proofs.Acceptance

/-!
# What the options of a document are

Options are read member by member, but what is read is told by the table as a whole.
A table is read if every option in it stands once and has a value that fits it. The
options are then made from the settings in the table, and what is reported are the
reports of its members in their order. Settings of options that a reader does not know
change nothing, so every reader may be thought to take all of them.
-/

namespace DialectTypes

namespace Reader

variable {α β : Type}

theorem bool_eq_ok_iff {d : Document} {b : Bool} : Reader.bool d = .ok b ↔ d = .bool b := by
  cases d <;> simp [Reader.bool]

theorem items_string_eq_ok_iff {ds : List Document} {names : List String} :
    items string ds = .ok names ↔ ds = names.map fun n => .string (some n) := by
  rw [items_eq_ok_iff (S := fun d n => d = .string (some n)) fun d _ n => string_eq_ok_iff]
  induction ds generalizing names with
  | nil => cases names <;> simp
  | cons d ds ih => cases names <;> simp [ih]

/-- What goes on without an error succeeds where it starts from a success. -/
theorem exists_bind_ok_iff {result : Except ReadError α} {next : α → Except ReadError β}
    (h : ∀ a, ∃ b, next a = .ok b) :
    (∃ b, (result >>= next) = .ok b) ↔ ∃ a, result = .ok a := by
  simp only [bind_eq_ok_iff]
  constructor
  · rintro ⟨b, a, ha, _⟩
    exact ⟨a, ha⟩
  · rintro ⟨a, ha⟩
    obtain ⟨b, hb⟩ := h a
    exact ⟨b, a, ha, hb⟩

theorem exists_optional_iff {read : Reader α} (hnull : ∀ a, read .null ≠ .ok a) {d : Document} :
    (∃ o, optional read d = .ok o) ↔ d = .null ∨ ∃ a, read d = .ok a := by
  simp only [optional_eq_ok_iff hnull]
  constructor
  · rintro ⟨o, ⟨hd, _⟩ | ⟨a, ha, _⟩⟩
    · exact Or.inl hd
    · exact Or.inr ⟨a, ha⟩
  · rintro (hd | ⟨a, ha⟩)
    · exact ⟨none, Or.inl ⟨hd, rfl⟩⟩
    · exact ⟨some a, Or.inr ⟨a, ha, rfl⟩⟩

end Reader

namespace OptionName

theorem text_injective : Function.Injective text := fun j k h => by
  simpa [h] using (ofText?_text j).symm

/-- The document is of the sort that the option takes; an option that may stay open
takes null. -/
def Fits : OptionName → Document → Prop
  | dateParser, d => d = .null ∨ ∃ s, d = .string (some s)
  | defaultSchemas, d =>
    d = .null ∨ ∃ names : List String, d = .array (names.map fun n => .string (some n)) true
  | domains, d => ∃ enabled, d = .bool enabled
  | numericParser, d => d = .null ∨ ∃ s, d = .string (some s)
  | partitions, d => ∃ enabled, d = .bool enabled
  | timestampParser, d => d = .null ∨ ∃ s, d = .string (some s)

/-- The setting that a value makes, with what is reported of it. A value that does not
fit makes none. -/
def meaning (k : OptionName) (d : Document) : Traced (Option Setting) :=
  match k.read d with
  | .ok s => s
  | .error _ => ⟨none, []⟩

section Values

open Reader

theorem exists_readChoice_iff {α : Type} [Choice α] {setting : α → Setting} {d : Document} :
    (∃ s, readChoice setting d = .ok s) ↔ d = .null ∨ ∃ s, d = .string (some s) := by
  unfold readChoice
  refine (exists_bind_ok_iff fun o => ?_).trans ?_
  · split
    · exact ⟨_, rfl⟩
    · split <;> exact ⟨_, rfl⟩
  · rw [exists_optional_iff nofun]
    simp only [string_eq_ok_iff]

/-- A value is read exactly if it fits the option. -/
theorem exists_read_iff {k : OptionName} {d : Document} : (∃ s, k.read d = .ok s) ↔ k.Fits d := by
  have hbool : ∀ setting : Bool → Setting,
      (∃ s, (do return ⟨some (setting (← Reader.bool d)), []⟩ :
        Except ReadError (Traced (Option Setting))) = .ok s) ↔ ∃ enabled, d = .bool enabled := by
    intro setting
    refine (exists_bind_ok_iff fun b => ⟨_, rfl⟩).trans ?_
    simp only [bool_eq_ok_iff]
  cases k with
  | dateParser => exact exists_readChoice_iff
  | defaultSchemas =>
      refine (exists_bind_ok_iff fun names => ⟨_, rfl⟩).trans ?_
      rw [exists_optional_iff nofun, Fits]
      simp only [list_eq_ok_iff, items_string_eq_ok_iff]
      simp
  | domains => exact hbool .domains
  | numericParser => exact exists_readChoice_iff
  | partitions => exact hbool .partitions
  | timestampParser => exact exists_readChoice_iff

theorem read_eq_ok_iff {k : OptionName} {d : Document} {s : Traced (Option Setting)} :
    k.read d = .ok s ↔ k.Fits d ∧ s = k.meaning d := by
  rw [← exists_read_iff, meaning]
  cases k.read d <;> simp [eq_comm]

theorem Fits.intact {k : OptionName} {d : Document} (h : k.Fits d) : d.intact = true := by
  cases k with
  | dateParser | numericParser | timestampParser => obtain rfl | ⟨s, rfl⟩ := h <;> rfl
  | defaultSchemas =>
      obtain rfl | ⟨names, rfl⟩ := h
      · rfl
      · simp [Document.intact, Document.intactItems_iff]
  | domains | partitions =>
      obtain ⟨enabled, rfl⟩ := h
      rfl

theorem returns_readChoice {α : Type} [Choice α] (setting : α → Setting) {k : OptionName}
    (h : ∀ a, (setting a).key = k) (d : Document) :
    Returns (fun t => ∀ s ∈ t.value, s.key = k) (readChoice setting d) := by
  refine (returns_true _).bind fun o _ => ?_
  split
  · exact returns_ok nofun
  · split
    · exact returns_ok (by simp [h])
    · exact returns_ok nofun

/-- A value makes a setting of its own option. -/
theorem returns_key_read (k : OptionName) (d : Document) :
    Returns (fun t => ∀ s ∈ t.value, s.key = k) (k.read d) := by
  cases k with
  | dateParser => exact returns_readChoice .dateParser (fun _ => rfl) d
  | numericParser => exact returns_readChoice .numericParser (fun _ => rfl) d
  | timestampParser => exact returns_readChoice .timestampParser (fun _ => rfl) d
  | defaultSchemas =>
      refine (returns_true _).bind fun schemas _ => returns_ok ?_
      cases schemas <;> simp [Setting.key]
  | domains | partitions => exact (returns_true _).bind fun _ _ => returns_ok (by simp [Setting.key])

/-- Nothing is reported of a value that is not the name of a choice. -/
theorem returns_events_read {k : OptionName} (d : Document)
    (h : k ∉ Options.keys PostgresAdapterOptions) :
    Returns (fun t => t.events = []) (k.read d) := by
  cases k with
  | dateParser | numericParser | timestampParser => exact absurd (by decide) h
  | defaultSchemas | domains | partitions =>
      exact (returns_true _).bind fun _ _ => returns_ok rfl

theorem key_of_meaning {k : OptionName} {d : Document} {s : Setting}
    (h : s ∈ (k.meaning d).value) : s.key = k := by
  unfold meaning at h
  split at h
  · next t ht => exact returns_key_read k d t ht s h
  · cases h

theorem events_meaning {k : OptionName} {d : Document}
    (h : k ∉ Options.keys PostgresAdapterOptions) : (k.meaning d).events = [] := by
  unfold meaning
  split
  · next t ht => exact returns_events_read d h t ht
  · rfl

end Values

/-- The option among the listed ones for which a member of a table is. -/
def ofMember? (keys : List OptionName) (m : Option String × Document) : Option OptionName :=
  m.1.bind fun key => (ofText? key).filter (· ∈ keys)

theorem mem_ofMember?_iff {keys : List OptionName} {m : Option String × Document}
    {k : OptionName} : k ∈ ofMember? keys m ↔ k ∈ keys ∧ m.1 = some k.text := by
  obtain ⟨key, d⟩ := m
  cases key with
  | none => simp [ofMember?]
  | some key =>
      simp only [ofMember?, Option.bind_some, Option.mem_def, Option.filter_eq_some_iff,
        ofText?_eq_some_iff, decide_eq_true_eq, Option.some.injEq]
      rw [and_comm, eq_comm (a := k.text)]

/-- The setting that a member of a table makes, if it is for one of the listed options,
with what is reported of it. -/
def taken (keys : List OptionName) (m : Option String × Document) : Traced (Option Setting) :=
  (ofMember? keys m).elim ⟨none, []⟩ fun k => k.meaning m.2

end OptionName

/-- The members of a table are read for the listed options: each key has a value, what is
passed over goes to its end, and each option stands at most once, with a value that fits. -/
structure FitsOptions (keys : List OptionName) (ms : List (Option String × Document)) : Prop where
  intact : ∀ m ∈ ms, m.1.isSome = true ∧ m.2.intact = true
  once : ms.Pairwise fun m n => ∀ k ∈ keys, m.1 = some k.text → n.1 ≠ some k.text
  fits : ∀ m ∈ ms, ∀ k ∈ keys, m.1 = some k.text → k.Fits m.2

section FitsOptions

variable {keys : List OptionName} {m : Option String × Document}
  {ms : List (Option String × Document)}

theorem fitsOptions_nil : FitsOptions keys [] :=
  ⟨nofun, .nil, nofun⟩

theorem fitsOptions_cons : FitsOptions keys (m :: ms) ↔
    (m.1.isSome = true ∧ m.2.intact = true) ∧
    (∀ k ∈ keys, m.1 = some k.text → k.Fits m.2 ∧ ∀ n ∈ ms, n.1 ≠ some k.text) ∧
    FitsOptions keys ms := by
  constructor
  · rintro ⟨hintact, honce, hfits⟩
    obtain ⟨hfirst, honce⟩ := List.pairwise_cons.mp honce
    refine ⟨hintact m (by simp), fun k hk hm => ⟨hfits m (by simp) k hk hm, ?_⟩, ?_⟩
    · exact fun n hn => hfirst n hn k hk hm
    · exact ⟨fun n hn => hintact n (.tail m hn), honce, fun n hn => hfits n (.tail m hn)⟩
  · rintro ⟨hm, hk, hintact, honce, hfits⟩
    refine ⟨List.forall_mem_cons.mpr ⟨hm, hintact⟩, List.pairwise_cons.mpr ⟨?_, honce⟩,
      List.forall_mem_cons.mpr ⟨fun k hkeys hm => (hk k hkeys hm).1, hfits⟩⟩
    exact fun n hn k hkeys hm => (hk k hkeys hm).2 n hn

/-- What fits still fits without some of the members. -/
theorem FitsOptions.sublist {ns : List (Option String × Document)} (h : FitsOptions keys ms)
    (hns : ns.Sublist ms) : FitsOptions keys ns where
  intact m hm := h.intact m (hns.subset hm)
  once := h.once.sublist hns
  fits m hm := h.fits m (hns.subset hm)

end FitsOptions

namespace SettingLog

open Reader OptionName

variable {keys : List OptionName} {log next : SettingLog} {ms : List (Option String × Document)}

/-- The log after the members of a table. -/
def after (keys : List OptionName) (log : SettingLog) (ms : List (Option String × Document)) :
    SettingLog where
  met := log.met ++ ms.filterMap (ofMember? keys)
  settings := log.settings ++ ms.flatMap fun m => (taken keys m).value.toList
  events := log.events ++ ms.flatMap fun m => (taken keys m).events

@[simp] theorem after_nil : log.after keys [] = log := by
  simp [after]

theorem after_cons (m : Option String × Document) :
    log.after keys (m :: ms) = (log.after keys [m]).after keys ms := by
  cases h : ofMember? keys m <;> simp [after, h]

theorem take_eq_ok_iff {key : String} {d : Document} :
    take keys log key d = .ok next ↔
      d.intact = true ∧
      (∀ k ∈ ofMember? keys (some key, d), k ∉ log.met ∧ k.Fits d) ∧
      next = log.after keys [(some key, d)] := by
  have hmember : ofMember? keys (some key, d) = (ofText? key).filter (· ∈ keys) := rfl
  unfold take
  rw [← hmember]
  cases hk : ofMember? keys (some key, d) with
  | none => simp [after, taken, hk, @eq_comm _ next]
  | some k =>
      have hafter : log.after keys [(some key, d)] =
          ⟨log.met ++ [k], log.settings ++ (k.meaning d).value.toList,
            log.events ++ (k.meaning d).events⟩ := by
        simp [after, taken, hk]
      by_cases hmet : k ∈ log.met
      · simp [hmet]
      · simp only [hmet, if_false, bind_eq_ok_iff, read_eq_ok_iff, pure_eq_ok_iff]
        rw [hafter]
        constructor
        · rintro ⟨s, ⟨hfits, rfl⟩, rfl⟩
          refine ⟨hfits.intact, ?_, rfl⟩
          rintro j ⟨⟩
          exact ⟨hmet, hfits⟩
        · rintro ⟨_, hj, rfl⟩
          exact ⟨k.meaning d, ⟨(hj k rfl).2, rfl⟩, rfl⟩

theorem mem_met_after {k : OptionName} :
    k ∈ (log.after keys ms).met ↔ k ∈ log.met ∨ ∃ m ∈ ms, k ∈ ofMember? keys m := by
  simp [after]

theorem take_eq_error {k : OptionName} {d : Document} {e : ReadError} (hk : k ∈ keys)
    (hmet : k ∉ log.met) (hd : k.read d = .error e) : take keys log k.text d = .error e := by
  have hname : (ofText? k.text).filter (· ∈ keys) = some k := by
    simp [Option.filter_some, hk]
  rw [take, hname]
  simp [hmet, hd]

/-- Every member of a table is taken exactly if the table fits and no option in it was
met before. -/
theorem members_eq_ok_iff :
    Reader.members (take keys) ms log = .ok next ↔
      FitsOptions keys ms ∧ (∀ m ∈ ms, ∀ k ∈ ofMember? keys m, k ∉ log.met) ∧
      next = log.after keys ms := by
  induction ms generalizing log with
  | nil => simp [Reader.members, fitsOptions_nil, eq_comm]
  | cons m ms ih =>
      obtain ⟨_ | key, d⟩ := m
      · simp [Reader.members, fitsOptions_cons]
      rw [members_cons, bind_eq_ok_iff, fitsOptions_cons, after_cons]
      simp only [take_eq_ok_iff, ih, mem_ofMember?_iff]
      constructor
      · rintro ⟨_, ⟨hd, hk, rfl⟩, hms, hnew, rfl⟩
        refine ⟨⟨⟨rfl, hd⟩, fun k hkeys hkey => ⟨(hk k ⟨hkeys, hkey⟩).2, ?_⟩, hms⟩, ?_, rfl⟩
        · intro n hn hname
          refine hnew n hn k ⟨hkeys, hname⟩ (mem_met_after.mpr (Or.inr ?_))
          exact ⟨_, List.mem_singleton_self _, mem_ofMember?_iff.mpr ⟨hkeys, hkey⟩⟩
        · refine List.forall_mem_cons.mpr ⟨fun k h => (hk k h).1, fun n hn k h hmet => ?_⟩
          exact hnew n hn k h (mem_met_after.mpr (Or.inl hmet))
      · rintro ⟨⟨⟨_, hd⟩, hk, hms⟩, hnew, rfl⟩
        obtain ⟨hnewm, hnew⟩ := List.forall_mem_cons.mp hnew
        refine ⟨_, ⟨hd, fun k h => ⟨hnewm k h, (hk k h.1 h.2).1⟩, rfl⟩, hms, ?_, rfl⟩
        intro n hn k h hmet
        obtain hmet | ⟨m, hm, hkm⟩ := mem_met_after.mp hmet
        · exact hnew n hn k h hmet
        · obtain rfl := List.mem_singleton.mp hm
          obtain ⟨hkeys, hkey⟩ := mem_ofMember?_iff.mp hkm
          exact (hk k hkeys hkey).2 n hn h.2

end SettingLog

/-- Options that know what they are made of: a setting of an unknown option changes
nothing, and settings of two options may be made in either order. -/
class LawfulOptions (α : Type) [Options α] : Prop where
  set_foreign : ∀ (o : α) (s : Setting), s.key ∉ Options.keys α → Options.set o s = o
  set_comm : ∀ (o : α) (s t : Setting), s.key ≠ t.key →
    Options.set (Options.set o s) t = Options.set (Options.set o t) s

instance : LawfulOptions IntrospectorOptions where
  set_foreign _ s h := by
    cases s with
    | dateParser | numericParser | timestampParser => rfl
    | _ => simp [Options.keys, Setting.key] at h
  set_comm _ s t h := by cases s <;> cases t <;> first | rfl | exact absurd rfl h

instance : LawfulOptions PostgresAdapterOptions where
  set_foreign _ s h := by
    cases s with
    | defaultSchemas | domains | partitions => rfl
    | _ => simp [Options.keys, Setting.key] at h
  set_comm _ s t h := by cases s <;> cases t <;> first | rfl | exact absurd rfl h

instance : LawfulOptions PostgresOptions where
  set_foreign _ s h := by cases s <;> simp [Options.keys, OptionName.all, Setting.key] at h
  set_comm _ s t h := by cases s <;> cases t <;> first | rfl | exact absurd rfl h

namespace Options

open Reader OptionName

/-- The settings in a table, as far as the listed options go. -/
def settingsOf (keys : List OptionName) (ms : List (Option String × Document)) : List Setting :=
  ms.flatMap fun m => (taken keys m).value.toList

/-- What is reported of the members of a table for the listed options. -/
def reportsOf (keys : List OptionName) (ms : List (Option String × Document)) : List Event :=
  ms.flatMap fun m => (taken keys m).events

/-- The options that the members of a table make, with what is reported of them. -/
def ofMembers (α : Type) [Options α] (ms : List (Option String × Document)) : Traced α :=
  ⟨ofSettings (settingsOf (keys α) ms), reportsOf (keys α) ms⟩

variable {α : Type} [Options α] {ms : List (Option String × Document)}

/-- Options are read from a table whose members fit, or from a sequence as the table that it
is, and from nothing else. -/
theorem read_eq_ok_iff {d : Document} {t : Traced α} :
    read d = .ok t ↔ ∃ ms, d.tabled (form α).fields = .object ms true ∧
      FitsOptions (keys α) ms ∧ t = ofMembers α ms := by
  simp only [read, bind_eq_ok_iff, fields_eq_ok_iff, SettingLog.members_eq_ok_iff, pure_eq_ok_iff]
  constructor
  · rintro ⟨_, ⟨ms, hd, hms, -, rfl⟩, rfl⟩
    exact ⟨ms, hd, hms, by simp [SettingLog.after, ofMembers, settingsOf, reportsOf]⟩
  · rintro ⟨ms, hd, hms, rfl⟩
    refine ⟨_, ⟨ms, hd, hms, by simp, rfl⟩, ?_⟩
    simp [SettingLog.after, ofMembers, settingsOf, reportsOf]

theorem read_object_eq_ok_iff {t : Traced α} :
    read (.object ms true) = .ok t ↔ FitsOptions (keys α) ms ∧ t = ofMembers α ms := by
  rw [read_eq_ok_iff]
  simp [Document.tabled]

/-- The first value that does not fit is what is reported. -/
theorem read_eq_error {before after : List (Option String × Document)} {k : OptionName}
    {v : Document} {e : ReadError} (hbefore : FitsOptions (keys α) before)
    (hnew : ∀ m ∈ before, m.1 ≠ some k.text) (hk : k ∈ keys α) (hv : k.read v = .error e) :
    (read (.object (before ++ (some k.text, v) :: after) true) : Except ReadError (Traced α)) =
      .error e := by
  have hmembers : Reader.members (SettingLog.take (keys α)) before {} =
      .ok (SettingLog.after (keys α) {} before) :=
    SettingLog.members_eq_ok_iff.mpr ⟨hbefore, by simp, rfl⟩
  have hmet : k ∉ (SettingLog.after (keys α) {} before).met := by
    rw [SettingLog.mem_met_after]
    rintro (hmet | ⟨m, hm, hkm⟩)
    · cases hmet
    · exact hnew m hm (mem_ofMember?_iff.mp hkm).2
  rw [read, fields_object, members_append, hmembers, ok_bind, members_cons,
    SettingLog.take_eq_error hk hmet hv]
  rfl

end Options

end DialectTypes
