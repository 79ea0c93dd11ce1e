import DialectTypes.Proofs.Formats
import DialectTypes.Proofs.Splitting
import DialectTypes.Proofs.WrittenOptions

/-!
# Parsers that are not recognized

The value of a parser option is recognized if it is, character by character, one of the
names of that option. Any other string is reported and makes no setting, so a table is read
as if the member were absent, and a text is read as the text without it. What is left of the
table is not touched: an option has the setting for which a member is written, and without
such a member it is as it is initially.
-/

namespace DialectTypes

/-- The names that a parser option recognizes. Other options take no names. -/
def OptionName.recognized? : OptionName → Option (List String)
  | dateParser => some ((Choice.values : List DateParser).map Choice.name)
  | numericParser => some ((Choice.values : List NumericParser).map Choice.name)
  | timestampParser => some ((Choice.values : List TimestampParser).map Choice.name)
  | defaultSchemas | domains | partitions => none

/-- What is reported of a value of an option. -/
def OptionName.report? (k : OptionName) : Document → Option Event
  | .string (some s) =>
    k.recognized?.bind fun names => if s ∈ names then none else some (.ignored k.text s)
  | _ => none

/-- What is reported of a member of a table. -/
def ignored? (m : Option String × Document) : Option Event :=
  m.1.bind fun key => (OptionName.ofText? key).bind fun k => k.report? m.2

/-- The members of which nothing is reported. -/
def recognizedMembers (ms : List (Option String × Document)) : List (Option String × Document) :=
  ms.filter fun m => (ignored? m).isNone

section Reports

open OptionName

variable {keys : List OptionName} {k : OptionName} {d : Document} {e : Event}
  {m : Option String × Document} {ms : List (Option String × Document)}

theorem mem_report?_iff : e ∈ k.report? d ↔
    ∃ names ∈ k.recognized?, ∃ s ∉ names, d = .string (some s) ∧ e = .ignored k.text s := by
  unfold report?
  split
  · cases k.recognized? <;> simp [eq_comm]
  · next hd =>
      simp only [Option.not_mem_none, false_iff]
      rintro ⟨names, -, s, -, rfl, -⟩
      exact hd s rfl

/-- A member is reported exactly if it gives a parser option a string that is not one of
the names of the option. -/
theorem mem_ignored?_iff : e ∈ ignored? m ↔
    ∃ k, ∃ names ∈ recognized? k, ∃ s ∉ names,
      m = (some k.text, .string (some s)) ∧ e = .ignored k.text s := by
  obtain ⟨key, d⟩ := m
  cases key with
  | none => simp [ignored?]
  | some key =>
      simp only [ignored?, Option.bind_some, Option.mem_def, Option.bind_eq_some_iff,
        ofText?_eq_some_iff, Prod.mk.injEq, Option.some.injEq]
      constructor
      · rintro ⟨k, rfl, he⟩
        obtain ⟨names, hnames, s, hs, hd, he⟩ := mem_report?_iff.mp he
        exact ⟨k, names, hnames, s, hs, ⟨rfl, hd⟩, he⟩
      · rintro ⟨k, names, hnames, s, hs, ⟨hkey, hd⟩, he⟩
        exact ⟨k, hkey.symm, mem_report?_iff.mpr ⟨names, hnames, s, hs, hd, he⟩⟩

theorem mem_recognizedMembers_iff :
    m ∈ recognizedMembers ms ↔ m ∈ ms ∧ ignored? m = none := by
  simp [recognizedMembers]

theorem recognizedMembers_sublist (ms : List (Option String × Document)) :
    (recognizedMembers ms).Sublist ms :=
  List.filter_sublist

section Choices

open Reader

theorem Choice.ofName?_eq_none_iff {α : Type} [Choice α] {s : String} :
    (Choice.ofName? s : Option α) = none ↔ s ∉ (Choice.values : List α).map Choice.name := by
  simp [Choice.ofName?]

variable {α : Type} [Choice α] {setting : α → Setting}

/-- A value that is reported makes no setting. -/
theorem readChoice_of_report (hoption : Choice.option α = k.text)
    (hnames : k.recognized? = some ((Choice.values : List α).map Choice.name))
    (h : e ∈ k.report? d) : readChoice setting d = .ok ⟨none, [e]⟩ := by
  obtain ⟨names, hk, s, hs, rfl, rfl⟩ := mem_report?_iff.mp h
  obtain rfl := Option.some.inj (hnames.symm.trans hk)
  have hname : (Choice.ofName? s : Option α) = none := Choice.ofName?_eq_none_iff.mpr hs
  simp [readChoice, Reader.optional, Reader.string, ok_bind, hname, hoption]

/-- Nothing else is reported. -/
theorem returns_readChoice_unreported
    (hnames : k.recognized? = some ((Choice.values : List α).map Choice.name))
    (h : k.report? d = none) : Returns (fun t => t.events = []) (readChoice setting d) := by
  intro t ht
  have hnull : ∀ s, Reader.string .null ≠ .ok s := nofun
  simp only [readChoice, bind_eq_ok_iff, optional_eq_ok_iff hnull, string_eq_ok_iff] at ht
  obtain ⟨o, ⟨-, rfl⟩ | ⟨s, rfl, rfl⟩, ht⟩ := ht
  · cases ht
    rfl
  · cases ha : (Choice.ofName? s : Option α) with
    | some a =>
        simp only [ha, pure_eq_ok_iff] at ht
        subst ht
        rfl
    | none =>
        have hreport := mem_report?_iff.mpr
          ⟨_, hnames, s, Choice.ofName?_eq_none_iff.mp ha, rfl, rfl⟩
        rw [h] at hreport
        cases hreport

end Choices

theorem meaning_of_report (h : e ∈ k.report? d) : k.meaning d = ⟨none, [e]⟩ := by
  have hread : k.read d = .ok ⟨none, [e]⟩ := by
    cases k with
    | dateParser | numericParser | timestampParser => exact readChoice_of_report rfl rfl h
    | defaultSchemas | domains | partitions =>
        obtain ⟨names, hnames, -⟩ := mem_report?_iff.mp h
        cases hnames
  rw [meaning, hread]

theorem events_meaning_of_no_report (h : k.report? d = none) : (k.meaning d).events = [] := by
  have hread : Reader.Returns (fun t => t.events = []) (k.read d) := by
    cases k with
    | dateParser | numericParser | timestampParser => exact returns_readChoice_unreported rfl h
    | defaultSchemas | domains | partitions => exact returns_events_read d (by decide)
  unfold meaning
  split
  · next t ht => exact hread t ht
  · rfl

theorem events_taken_of_not_ignored (h : ignored? m = none) : (taken keys m).events = [] := by
  rw [taken]
  cases hk : ofMember? keys m with
  | none => rfl
  | some k =>
      apply events_meaning_of_no_report
      obtain ⟨-, hkey⟩ := mem_ofMember?_iff.mp hk
      simpa [ignored?, hkey] using h

section Known

variable (hkeys : ∀ k ∈ Options.keys PostgresAdapterOptions, k ∈ keys)
include hkeys

/-- A member that is reported makes no setting. -/
theorem taken_of_ignored (h : e ∈ ignored? m) : taken keys m = ⟨none, [e]⟩ := by
  obtain ⟨k, names, hnames, s, hs, rfl, rfl⟩ := mem_ignored?_iff.mp h
  have hk : k ∈ Options.keys PostgresAdapterOptions := by
    cases k <;> first | decide | cases hnames
  have hname : ofMember? keys (some k.text, .string (some s)) = some k :=
    mem_ofMember?_iff.mpr ⟨hkeys k hk, rfl⟩
  rw [taken, hname]
  exact meaning_of_report (mem_report?_iff.mpr ⟨names, hnames, s, hs, rfl, rfl⟩)

theorem reportsOf_eq_filterMap (ms : List (Option String × Document)) :
    Options.reportsOf keys ms = ms.filterMap ignored? := by
  induction ms with
  | nil => rfl
  | cons m ms ih =>
      rw [Options.reportsOf] at ih ⊢
      rw [List.flatMap_cons, ih]
      cases h : ignored? m with
      | none => rw [events_taken_of_not_ignored h, List.filterMap_cons_none h, List.nil_append]
      | some e => rw [taken_of_ignored hkeys h, List.filterMap_cons_some h, List.singleton_append]

theorem reportsOf_recognizedMembers (ms : List (Option String × Document)) :
    Options.reportsOf keys (recognizedMembers ms) = [] := by
  rw [reportsOf_eq_filterMap hkeys, List.filterMap_eq_nil_iff]
  exact fun m hm => (mem_recognizedMembers_iff.mp hm).2

theorem settingsOf_recognizedMembers (ms : List (Option String × Document)) :
    Options.settingsOf keys (recognizedMembers ms) = Options.settingsOf keys ms := by
  rw [recognizedMembers, Options.settingsOf, Options.settingsOf]
  induction ms with
  | nil => rfl
  | cons m ms ih =>
      rw [List.flatMap_cons, ← ih]
      cases h : ignored? m with
      | none => rw [List.filter_cons_of_pos (by rw [h]; rfl), List.flatMap_cons]
      | some e =>
          rw [List.filter_cons_of_neg (by simp [h]), taken_of_ignored hkeys h]
          rfl

end Known

/-- A table without what is not recognized makes the same options, and nothing is reported
of it. -/
theorem ofMembers_recognizedMembers {α : Type} [Options α]
    (hkeys : ∀ k ∈ Options.keys PostgresAdapterOptions, k ∈ Options.keys α)
    (ms : List (Option String × Document)) :
    Options.ofMembers α (recognizedMembers ms) = ⟨(Options.ofMembers α ms).value, []⟩ := by
  rw [Options.ofMembers, settingsOf_recognizedMembers hkeys, reportsOf_recognizedMembers hkeys,
    Options.ofMembers]

end Reports

section Settings

open OptionName Options

variable {keys : List OptionName} {k : OptionName} {s : Setting}
  {m : Option String × Document} {ms : List (Option String × Document)}

/-- A setting is taken from the member that is written for it. -/
theorem mem_taken_iff : s ∈ (taken keys m).value ↔ s.key ∈ keys ∧ m = s.member := by
  constructor
  · intro hs
    rw [taken] at hs
    cases hk : ofMember? keys m with
    | none =>
        rw [hk] at hs
        cases hs
    | some k =>
        rw [hk] at hs
        obtain ⟨hkeys, hname⟩ := mem_ofMember?_iff.mp hk
        obtain ⟨rfl, hd⟩ := mem_meaning_iff.mp hs
        exact ⟨hkeys, Prod.ext hname hd⟩
  · rintro ⟨hkeys, rfl⟩
    rw [taken_member hkeys]
    rfl

theorem mem_settingsOf_iff : s ∈ settingsOf keys ms ↔ s.key ∈ keys ∧ s.member ∈ ms := by
  simp only [settingsOf, List.mem_flatMap, Option.mem_toList, ← Option.mem_def, mem_taken_iff]
  constructor
  · rintro ⟨m, hm, hkeys, rfl⟩
    exact ⟨hkeys, hm⟩
  · rintro ⟨hkeys, hm⟩
    exact ⟨_, hm, hkeys, rfl⟩

/-- An option has one member at most. -/
theorem FitsOptions.eq_of_key (h : FitsOptions keys ms) (hk : k ∈ keys)
    {n : Option String × Document} (hm : m ∈ ms) (hn : n ∈ ms) (hmk : m.1 = some k.text)
    (hnk : n.1 = some k.text) : m = n := by
  by_contra hne
  have hsymm : Std.Symm fun m n : Option String × Document =>
      ∀ k ∈ keys, m.1 = some k.text → n.1 ≠ some k.text :=
    ⟨fun m n hmn k hk hn hm => hmn k hk hm hn⟩
  exact h.once.forall hm hn hne k hk hmk hnk

theorem FitsOptions.settings_pairwise (h : FitsOptions keys ms) :
    (settingsOf keys ms).Pairwise fun s t => s.key ≠ t.key := by
  rw [settingsOf, List.pairwise_flatMap]
  refine ⟨fun m _ => ?_, h.once.imp fun hmn s hs t ht hkey => ?_⟩
  · cases (taken keys m).value <;> simp
  · obtain ⟨hkeys, rfl⟩ := mem_taken_iff.mp (Option.mem_toList.mp hs)
    obtain ⟨-, rfl⟩ := mem_taken_iff.mp (Option.mem_toList.mp ht)
    exact hmn s.key hkeys rfl (by rw [hkey]; rfl)

variable {α : Type} [Options α] [LawfulSettings α]

/-- The settings of options after further ones, of which there is one for an option at most. -/
theorem mem_settings_foldl_set {settings : List Setting}
    (hkeys : ∀ t ∈ settings, t.key ∈ Options.keys α)
    (hpairwise : settings.Pairwise fun s t => s.key ≠ t.key) (o : α) :
    s ∈ Options.settings (settings.foldl set o) ↔
      s ∈ settings ∨ s ∈ Options.settings o ∧ ∀ t ∈ settings, t.key ≠ s.key := by
  induction settings generalizing o with
  | nil => simp
  | cons t ts ih =>
      obtain ⟨ht, hts⟩ := List.forall_mem_cons.mp hkeys
      obtain ⟨hfirst, hpairwise⟩ := List.pairwise_cons.mp hpairwise
      rw [List.foldl_cons, ih hts hpairwise, LawfulSettings.mem_settings_set o s t ht,
        List.mem_cons, List.forall_mem_cons]
      constructor
      · rintro (hs | ⟨rfl | ⟨hs, hne⟩, hother⟩)
        · exact Or.inl (Or.inr hs)
        · exact Or.inl (Or.inl rfl)
        · exact Or.inr ⟨hs, hne, hother⟩
      · rintro ((rfl | hs) | ⟨hs, hne, hother⟩)
        · exact Or.inr ⟨Or.inl rfl, fun u hu => (hfirst u hu).symm⟩
        · exact Or.inl hs
        · exact Or.inr ⟨Or.inr ⟨hs, hne⟩, hother⟩

/-- An option has the setting for which a member is written, or else what it has initially. -/
theorem FitsOptions.mem_settings_iff (h : FitsOptions (Options.keys α) ms) :
    s ∈ Options.settings (ofMembers α ms).value ↔
      s.key ∈ Options.keys α ∧ s.member ∈ ms ∨
        s ∈ Options.settings (initial : α) ∧ ∀ u : Setting, u.key = s.key → u.member ∉ ms := by
  have hkeys : ∀ t ∈ settingsOf (Options.keys α) ms, t.key ∈ Options.keys α :=
    fun t ht => (mem_settingsOf_iff.mp ht).1
  rw [ofMembers, ofSettings, mem_settings_foldl_set hkeys h.settings_pairwise, mem_settingsOf_iff]
  refine or_congr_right (and_congr_right fun hs => ?_)
  have hsk := LawfulSettings.key_mem _ s hs
  constructor
  · intro hother u hu hmem
    exact hother u (mem_settingsOf_iff.mpr ⟨hu ▸ hsk, hmem⟩) hu
  · intro hother u hmem hu
    exact hother u hu (mem_settingsOf_iff.mp hmem).2

/-- A member that is null leaves its option as it is initially. -/
theorem FitsOptions.mem_initial_of_null (h : FitsOptions (Options.keys α) ms)
    (hk : k ∈ Options.keys α) (hnull : (some k.text, Document.null) ∈ ms)
    (hs : s ∈ Options.settings (ofMembers α ms).value) (hsk : s.key = k) :
    s ∈ Options.settings (initial : α) := by
  obtain ⟨-, hmem⟩ | ⟨hs, -⟩ := h.mem_settings_iff.mp hs
  · have hsame := h.eq_of_key hk hmem hnull (by rw [← hsk]; rfl) rfl
    have hdocument : s.toJson.document = .null := congrArg Prod.snd hsame
    cases s <;> simp [Setting.toJson, Json.Value.document] at hdocument
  · exact hs

end Settings

open Options

/-- Options are read from a text, of which these are the members, as if the members that are
not recognized were absent. -/
structure AsIfAbsent {α : Type} [Options α] (text : String)
    (ms : List (Option String × Document)) (t : Traced α) : Prop where
  denotes : Json.Denotes text (.object ms true)
  /-- There is a text without them that keeps everything else. -/
  removable : ∃ rest : String, rest.toList.Sublist text.toList ∧
    Json.Denotes rest (.object (recognizedMembers ms) true)
  /-- Without them the same options are read, and nothing is reported. -/
  absent : ∀ rest, Json.Denotes rest (.object (recognizedMembers ms) true) →
    ofJson rest = .ok (⟨t.value, []⟩ : Traced α)
  /-- There is one report for each of them, in text order. -/
  reported : t.events = ms.filterMap ignored?
  /-- Every other member counts for what is written in it. -/
  kept : ∀ s, s ∈ settings t.value ↔ s.key ∈ keys α ∧ s.member ∈ ms ∨
    s ∈ settings (initial : α) ∧ ∀ u : Setting, u.key = s.key → u.member ∉ ms
  /-- A null leaves its option as it is initially. -/
  null : ∀ k ∈ keys α, (some k.text, .null) ∈ ms →
    ∀ s ∈ settings t.value, s.key = k → s ∈ settings (initial : α)

theorem asIfAbsent {α : Type} [Options α] [LawfulSettings α] {text : String}
    {ms : List (Option String × Document)} {t : Traced α}
    (hkeys : ∀ k ∈ keys PostgresAdapterOptions, k ∈ keys α)
    (hd : Json.Denotes text (.object ms true)) (h : ofJson text = .ok t) :
    AsIfAbsent text ms t := by
  rw [ofJson_of_denotes hd] at h
  obtain ⟨hfits, rfl⟩ := read_object_eq_ok_iff.mp h
  have hsublist := recognizedMembers_sublist ms
  refine {
    denotes := hd
    removable := hd.exists_sublist hsublist
    absent := ?_
    reported := reportsOf_eq_filterMap hkeys ms
    kept := fun s => hfits.mem_settings_iff
    null := fun k hk hnull s hs hsk => hfits.mem_initial_of_null hk hnull hs hsk }
  intro rest hrest
  rw [ofJson_of_denotes hrest]
  exact read_object_eq_ok_iff.mpr
    ⟨hfits.sublist hsublist, (ofMembers_recognizedMembers hkeys ms).symm⟩

theorem AsIfAbsent.value_eq {α : Type} [Options α] {text rest : String}
    {ms : List (Option String × Document)} {t u : Traced α} (h : AsIfAbsent text ms t)
    (hrest : Json.Denotes rest (.object (recognizedMembers ms) true))
    (hu : ofJson rest = .ok u) : u.value = t.value := by
  have hread := (h.absent rest hrest).symm.trans hu
  rw [← Except.ok.inj hread]

/-- Parsers that are not recognized are as good as absent. Of a table that is read as options
every parser option can be left out whose string is not one of its names, character by
character: the rest is read as the same options and nothing is reported, while each of them
is reported once, in text order, with the name of its option and its string. All other
members count for what is written in them, and a null for nothing. So a run is configured
alike by both texts, and the driver's adapter is the same. -/
theorem unrecognized_parsers_as_if_absent (text : String) (ms : List (Option String × Document))
    (hd : Json.Denotes text (.object ms true)) :
    (∀ t : Traced PostgresOptions, ofJson text = .ok t → AsIfAbsent text ms t ∧
      ∀ (rest : String) (u : Traced PostgresOptions),
        Json.Denotes rest (.object (recognizedMembers ms) true) → ofJson rest = .ok u →
        PostgresDialect.ofOptions u.value = PostgresDialect.ofOptions t.value) ∧
    ∀ t : Traced PostgresAdapterOptions, ofJson text = .ok t → AsIfAbsent text ms t ∧
      ∀ (rest : String) (u : Traced PostgresAdapterOptions),
        Json.Denotes rest (.object (recognizedMembers ms) true) → ofJson rest = .ok u →
        Postgres.adapter u.value = Postgres.adapter t.value := by
  constructor
  · intro t ht
    have hms := asIfAbsent (by decide) hd ht
    exact ⟨hms, fun rest u hrest hu => by rw [hms.value_eq hrest hu]⟩
  · intro t ht
    have hms := asIfAbsent (by decide) hd ht
    exact ⟨hms, fun rest u hrest hu => by rw [hms.value_eq hrest hu]⟩

/-- Options with a name in capital letters, a name of another option and a name that is
spelled with an escape. -/
def misnamedJson : String :=
  "\x7b\"dateParser\":\"STRING\",\"x\":[\"dateParser\"],\"numericParser\":\"\\u006eumber\"," ++
    "\"domains\":true,\"timestampParser\":\"number\",\"defaultSchemas\":null\x7d"

/-- The same options without the names that are not recognized. -/
def wellNamedJson : String :=
  "\x7b\"x\":[\"dateParser\"],\"numericParser\":\"\\u006eumber\"," ++
    "\"domains\":true,\"defaultSchemas\":null\x7d"

def misnamedMembers : List (Option String × Document) :=
  [(some "dateParser", .string (some "STRING")),
    (some "x", .array [.string (some "dateParser")] true),
    (some "numericParser", .string (some "number")), (some "domains", .bool true),
    (some "timestampParser", .string (some "number")), (some "defaultSchemas", .null)]

def misnamedReports : List Event :=
  [.ignored "dateParser" "STRING", .ignored "timestampParser" "number"]

def wellNamedOptions : PostgresOptions :=
  { numericParser := some .number, domains := true }

theorem misnamedParsers_as_if_absent :
    Json.Denotes misnamedJson (.object misnamedMembers true) ∧
    ofJson misnamedJson = .ok (⟨wellNamedOptions, misnamedReports⟩ : Traced PostgresOptions) ∧
    ofJson wellNamedJson = .ok (⟨wellNamedOptions, []⟩ : Traced PostgresOptions) ∧
    ofJson misnamedJson =
      .ok (⟨wellNamedOptions.adapter, misnamedReports⟩ : Traced PostgresAdapterOptions) ∧
    ofJson wellNamedJson =
      .ok (⟨wellNamedOptions.adapter, []⟩ : Traced PostgresAdapterOptions) := by
  have hdenotes : Json.Denotes misnamedJson (.object misnamedMembers true) :=
    Json.denotes_of_source (by decide +kernel) (by decide)
  have hrest : Json.Denotes wellNamedJson (.object (recognizedMembers misnamedMembers) true) :=
    Json.denotes_of_source (by decide +kernel) (by decide)
  have hrun : ofJson misnamedJson =
      .ok (⟨wellNamedOptions, misnamedReports⟩ : Traced PostgresOptions) := by
    rw [ofJson_of_denotes hdenotes]
    decide
  have hadapter : ofJson misnamedJson =
      .ok (⟨wellNamedOptions.adapter, misnamedReports⟩ : Traced PostgresAdapterOptions) := by
    rw [ofJson_of_denotes hdenotes]
    decide
  obtain ⟨hrunOptions, hadapterOptions⟩ :=
    unrecognized_parsers_as_if_absent misnamedJson misnamedMembers hdenotes
  exact ⟨hdenotes, hrun, (hrunOptions _ hrun).1.absent _ hrest, hadapter,
    (hadapterOptions _ hadapter).1.absent _ hrest⟩

end DialectTypes
