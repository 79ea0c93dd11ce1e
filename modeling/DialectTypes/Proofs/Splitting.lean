import DialectTypes.Postgres
import DialectTypes.Proofs.OptionReading

/-!
# Splitting what is read

The options of a PostgreSQL run know the keys of the introspector and those of the
adapter, and no others. So configuration is read as options of a run exactly if it is
read as options of either share, and the shares of what is read are what would be read
for each of them alone. Only the adapter's share is ever reported.
-/

namespace DialectTypes

open OptionName

section Cover

variable {keys known left right : List OptionName} {m : Option String × Document}
  {ms : List (Option String × Document)}

/-- A reader of two lists of options takes a table exactly if a reader of either takes it. -/
theorem fitsOptions_cover (h : ∀ k, k ∈ keys ↔ k ∈ left ∨ k ∈ right) :
    FitsOptions keys ms ↔ FitsOptions left ms ∧ FitsOptions right ms := by
  constructor
  · intro hms
    have hpart : ∀ part : List OptionName, (∀ k ∈ part, k ∈ keys) → FitsOptions part ms :=
      fun part hpart =>
        ⟨hms.intact, hms.once.imp fun hmn k hk => hmn k (hpart k hk),
          fun m hm k hk => hms.fits m hm k (hpart k hk)⟩
    exact ⟨hpart left fun k hk => (h k).mpr (Or.inl hk),
      hpart right fun k hk => (h k).mpr (Or.inr hk)⟩
  · rintro ⟨hleft, hright⟩
    refine ⟨hleft.intact, (hleft.once.and hright.once).imp ?_, ?_⟩
    · rintro m n ⟨hmn, hmn'⟩ k hk
      exact ((h k).mp hk).elim (hmn k) (hmn' k)
    · intro m hm k hk
      exact ((h k).mp hk).elim (hleft.fits m hm k) (hright.fits m hm k)

theorem ofMember?_of_subset (h : ∀ k ∈ known, k ∈ keys) :
    ofMember? known m = (ofMember? keys m).filter (· ∈ known) := by
  ext k
  rw [← Option.mem_def, ← Option.mem_def, Option.mem_filter_iff]
  simp only [mem_ofMember?_iff, decide_eq_true_eq]
  constructor
  · rintro ⟨hk, hm⟩
    exact ⟨⟨h k hk, hm⟩, hk⟩
  · rintro ⟨⟨-, hm⟩, hk⟩
    exact ⟨hk, hm⟩

/-- What is taken from a member by a reader of fewer options. -/
theorem taken_of_subset (h : ∀ k ∈ known, k ∈ keys) :
    taken known m = taken keys m ∨
      taken known m = ⟨none, []⟩ ∧ ∃ k, k ∉ known ∧ taken keys m = k.meaning m.2 := by
  simp only [taken, ofMember?_of_subset h]
  cases ofMember? keys m with
  | none => exact Or.inl rfl
  | some k =>
      by_cases hk : k ∈ known
      · simp [Option.filter_some, hk]
      · exact Or.inr ⟨by simp [Option.filter_some, hk], k, hk, rfl⟩

theorem reportsOf_of_covers (h : ∀ k ∈ Options.keys PostgresAdapterOptions, k ∈ keys) :
    Options.reportsOf keys ms = Options.reportsOf (Options.keys PostgresAdapterOptions) ms := by
  refine congrArg List.flatten (List.map_congr_left fun m _ => ?_)
  obtain hsame | ⟨hnone, k, hk, hforeign⟩ := taken_of_subset (m := m) h
  · rw [hsame]
  · rw [hnone, hforeign, events_meaning hk]

theorem reportsOf_eq_nil (h : ∀ k ∈ keys, k ∉ Options.keys PostgresAdapterOptions) :
    Options.reportsOf keys ms = [] := by
  refine List.flatMap_eq_nil_iff.mpr fun m _ => ?_
  rw [taken]
  cases hk : ofMember? keys m with
  | none => rfl
  | some k => exact events_meaning (h k (mem_ofMember?_iff.mp hk).1)

/-- Settings of unknown options may be left in. -/
theorem ofSettings_settingsOf {α : Type} [Options α] [LawfulOptions α]
    (h : ∀ k ∈ Options.keys α, k ∈ keys) (ms : List (Option String × Document)) :
    (Options.ofSettings (Options.settingsOf keys ms) : α) =
      Options.ofSettings (Options.settingsOf (Options.keys α) ms) := by
  have hset : ∀ (m : Option String × Document) (o : α),
      (taken keys m).value.toList.foldl Options.set o =
        (taken (Options.keys α) m).value.toList.foldl Options.set o := by
    intro m o
    obtain hsame | ⟨hnone, k, hk, hforeign⟩ := taken_of_subset (m := m) h
    · rw [hsame]
    · rw [hnone, hforeign]
      cases hs : (k.meaning m.2).value with
      | none => rfl
      | some s => exact LawfulOptions.set_foreign o s (key_of_meaning hs ▸ hk)
  simp only [Options.ofSettings, Options.settingsOf]
  generalize (Options.initial : α) = o
  induction ms generalizing o with
  | nil => rfl
  | cons m ms ih => simp only [List.flatMap_cons, List.foldl_append, hset, ih]

end Cover

namespace PostgresOptions

/-- Settings go to the shares one by one. -/
theorem split_ofSettings (settings : List Setting) :
    (Options.ofSettings settings : PostgresOptions).split =
      (Options.ofSettings settings, Options.ofSettings settings) := by
  have hi : ∀ (o : PostgresOptions) (s : Setting),
      o.introspector.set s = (o.set s).introspector :=
    fun o s => (Prod.mk.inj (split_set o s)).1.symm
  have hp : ∀ (o : PostgresOptions) (s : Setting), o.adapter.set s = (o.set s).adapter :=
    fun o s => (Prod.mk.inj (split_set o s)).2.symm
  exact Prod.ext (List.foldl_hom introspector hi).symm (List.foldl_hom adapter hp).symm

theorem mem_keys_iff (k : OptionName) :
    k ∈ Options.keys PostgresOptions ↔
      k ∈ Options.keys IntrospectorOptions ∨ k ∈ Options.keys PostgresAdapterOptions := by
  cases k <;> decide

/-- The shares of the options that a table makes are the options that it makes for each. -/
theorem split_ofMembers (ms : List (Option String × Document)) :
    (Options.ofMembers PostgresOptions ms).value.split =
      ((Options.ofMembers IntrospectorOptions ms).value,
        (Options.ofMembers PostgresAdapterOptions ms).value) := by
  refine (split_ofSettings _).trans (congrArg₂ Prod.mk ?_ ?_)
  · exact ofSettings_settingsOf (fun k hk => (mem_keys_iff k).mpr (Or.inl hk)) ms
  · exact ofSettings_settingsOf (fun k hk => (mem_keys_iff k).mpr (Or.inr hk)) ms

end PostgresOptions

/-- How configuration is written. -/
inductive ConfigFormat where
  | json
  | toml

namespace ConfigFormat

/-- The document of a text, if the text is one of the format. -/
def document? : ConfigFormat → String → Option Document
  | json, text => if (Json.source text).ended then some (Json.source text).document else none
  | toml, text => Toml.document? text

/-- The text is read as these options, with these reports. -/
def Reads {α : Type} [Options α] : ConfigFormat → String → Traced α → Prop
  | json, text, t => Options.ofJson text = .ok t
  | toml, text, t => Options.ofToml text = .ok t

instance {α : Type} [Options α] [DecidableEq α] (f : ConfigFormat) (text : String)
    (t : Traced α) : Decidable (f.Reads text t) :=
  match f with
  | json => inferInstanceAs (Decidable (Options.ofJson text = .ok t))
  | toml => inferInstanceAs (Decidable (Options.ofToml text = .ok t))

theorem reads_iff {α : Type} [Options α] {f : ConfigFormat} {text : String} {t : Traced α} :
    f.Reads text t ↔ ∃ d ∈ f.document? text, Options.read d = .ok t := by
  cases f with
  | json =>
      simp only [Reads, Options.ofJson, Reader.whole, Reader.bind_eq_ok_iff,
        Reader.ended_eq_ok_iff, document?]
      cases (Json.source text).ended <;> simp
  | toml =>
      simp only [Reads, Options.ofToml, Toml.read, document?]
      cases Toml.document? text with
      | none => simp
      | some d => cases h : (Options.read d : Except ReadError (Traced α)) <;> simp [h]

/-- What a text is read as is told by its document alone. -/
theorem Reads.ofMembers {α : Type} [Options α] {f : ConfigFormat} {text : String}
    {ms : List (Option String × Document)} {closed : Bool} {t : Traced α}
    (h : f.Reads text t) (hd : f.document? text = some (.object ms closed)) :
    t = Options.ofMembers α ms := by
  obtain ⟨d, hd', ht⟩ := reads_iff.mp h
  obtain rfl := Option.some.inj (hd.symm.trans hd')
  obtain ⟨_, ⟨⟩, -, rfl⟩ := Options.read_eq_ok_iff.mp ht
  rfl

/-- What is read of a document that is not a sequence is read of a table. -/
theorem reads_iff_of_ne_array {α : Type} [Options α] {f : ConfigFormat} {text : String}
    {t : Traced α} (hform : ∀ ds closed, f.document? text ≠ some (.array ds closed)) :
    f.Reads text t ↔ ∃ ms, f.document? text = some (.object ms true) ∧
      FitsOptions (Options.keys α) ms ∧ t = Options.ofMembers α ms := by
  rw [reads_iff]
  constructor
  · rintro ⟨d, hd, ht⟩
    obtain ⟨ms, htable, hfits, rfl⟩ := Options.read_eq_ok_iff.mp ht
    cases d with
    | array ds closed => exact absurd hd (hform ds closed)
    | object ns closed =>
        cases htable
        exact ⟨ms, hd, hfits, rfl⟩
    | _ => cases htable
  · rintro ⟨ms, hd, hfits, rfl⟩
    exact ⟨_, hd, Options.read_object_eq_ok_iff.mpr ⟨hfits, rfl⟩⟩

/-- The document of a TOML text is a table. -/
theorem document?_toml_ne_array (text : String) (ds : List Document) (closed : Bool) :
    toml.document? text ≠ some (.array ds closed) := by
  intro h
  obtain ⟨_, -, hd⟩ := Option.bind_eq_some_iff.mp h
  cases hd

end ConfigFormat

namespace PostgresOptions

open ConfigFormat

/-- Configuration is read as the options of a run exactly if it is read as options of the
introspector and as options of the adapter. -/
theorem exists_reads_iff {f : ConfigFormat} {text : String}
    (hform : ∀ ds closed, f.document? text ≠ some (.array ds closed)) :
    (∃ o : Traced PostgresOptions, f.Reads text o) ↔
      (∃ i : Traced IntrospectorOptions, f.Reads text i) ∧
        ∃ p : Traced PostgresAdapterOptions, f.Reads text p := by
  simp only [reads_iff_of_ne_array hform]
  constructor
  · rintro ⟨_, ms, hd, hms, -⟩
    obtain ⟨hi, hp⟩ := (fitsOptions_cover mem_keys_iff).mp hms
    exact ⟨⟨_, ms, hd, hi, rfl⟩, _, ms, hd, hp, rfl⟩
  · rintro ⟨⟨_, ms, hd, hi, -⟩, _, _, hd', hp, -⟩
    obtain ⟨⟩ := Option.some.inj (hd.symm.trans hd')
    exact ⟨_, ms, hd, (fitsOptions_cover mem_keys_iff).mpr ⟨hi, hp⟩, rfl⟩

/-- Splitting commutes with reading, unless a JSON text has the options as a sequence, whose
items are for other options in each share: the options of a run are read exactly if both shares
are, the shares of what is read are what is read for each alone, and what is reported is
what is reported for the adapter. So a run is configured as if its introspector and its
adapter had each read the configuration. -/
theorem reading_commutes_with_splitting (f : ConfigFormat) (text : String)
    (hform : f = json → ∀ ds closed, (Json.source text).document ≠ .array ds closed) :
    ((∃ o : Traced PostgresOptions, f.Reads text o) ↔
      (∃ i : Traced IntrospectorOptions, f.Reads text i) ∧
        ∃ p : Traced PostgresAdapterOptions, f.Reads text p) ∧
    ∀ (o : Traced PostgresOptions) (i : Traced IntrospectorOptions)
      (p : Traced PostgresAdapterOptions), f.Reads text o → f.Reads text i → f.Reads text p →
      o.value.split = (i.value, p.value) ∧ o.events = p.events ∧ i.events = [] ∧
      PostgresDialect.ofOptions o.value =
        ⟨⟨i.value, p.value, (Postgres.adapter p.value).value⟩,
          (Postgres.adapter p.value).events⟩ := by
  have htable : ∀ ds closed, f.document? text ≠ some (.array ds closed) := by
    cases f with
    | json =>
        intro ds closed hd
        rw [document?] at hd
        split at hd
        · exact hform rfl ds closed (Option.some.inj hd)
        · cases hd
    | toml => exact document?_toml_ne_array text
  refine ⟨exists_reads_iff htable, fun o i p ho hi hp => ?_⟩
  obtain ⟨ms, hd, -, rfl⟩ := (reads_iff_of_ne_array htable).mp ho
  obtain rfl := hi.ofMembers hd
  obtain rfl := hp.ofMembers hd
  have hsplit := split_ofMembers ms
  obtain ⟨hi, hp⟩ := Prod.mk.inj hsplit
  refine ⟨hsplit, reportsOf_of_covers (by decide), reportsOf_eq_nil (by decide), ?_⟩
  rw [PostgresDialect.ofOptions, hi, hp]

/-- Configuration for both shares, with an empty list of schemas and a parser that is
not recognized. -/
def mixedJson : String :=
  "\x7b\"numericParser\":\"bignum\",\"partitions\":true,\"x\":null,\"defaultSchemas\":[]," ++
    "\"dateParser\":\"string\"\x7d"

/-- The same configuration as TOML. -/
def mixedToml : String :=
  "numericParser = 'bignum'\npartitions = true\ndefaultSchemas = []\ndateParser = 'string'\n[x]"

def mixedIntrospector : Traced IntrospectorOptions :=
  ⟨{ defaultSchemas := some [], partitions := true }, []⟩

def mixedAdapter : Traced PostgresAdapterOptions :=
  ⟨{ dateParser := some .string }, [.ignored "numericParser" "bignum"]⟩

theorem mixedConfiguration_split :
    (∀ ds closed, (Json.source mixedJson).document ≠ .array ds closed) ∧
    (∃ o : Traced PostgresOptions, json.Reads mixedJson o ∧
      o.value.split = (mixedIntrospector.value, mixedAdapter.value) ∧
      o.events = [.ignored "numericParser" "bignum"]) ∧
    ∃ o : Traced PostgresOptions, toml.Reads mixedToml o ∧
      o.value.split = (mixedIntrospector.value, mixedAdapter.value) ∧
      o.events = [.ignored "numericParser" "bignum"] := by
  have hjson : json.Reads mixedJson mixedIntrospector ∧ json.Reads mixedJson mixedAdapter :=
    ⟨by decide +kernel, by decide +kernel⟩
  have htoml : toml.Reads mixedToml mixedIntrospector ∧ toml.Reads mixedToml mixedAdapter :=
    ⟨by decide +kernel, by decide +kernel⟩
  have htable : ∀ ds closed, (Json.source mixedJson).document ≠ .array ds closed := by
    intro ds closed h
    have hmembers : (Json.source mixedJson).document.members.length = 5 := by decide +kernel
    rw [h] at hmembers
    cases hmembers
  obtain ⟨hread, hsplit⟩ := reading_commutes_with_splitting json mixedJson fun _ => htable
  obtain ⟨hread', hsplit'⟩ := reading_commutes_with_splitting toml mixedToml nofun
  obtain ⟨o, ho⟩ := hread.mpr ⟨⟨_, hjson.1⟩, _, hjson.2⟩
  obtain ⟨o', ho'⟩ := hread'.mpr ⟨⟨_, htoml.1⟩, _, htoml.2⟩
  obtain ⟨hshares, hevents, -⟩ := hsplit o _ _ ho hjson.1 hjson.2
  obtain ⟨hshares', hevents', -⟩ := hsplit' o' _ _ ho' htoml.1 htoml.2
  exact ⟨htable, ⟨o, ho, hshares, hevents⟩, o', ho', hshares', hevents'⟩

end PostgresOptions

end DialectTypes
