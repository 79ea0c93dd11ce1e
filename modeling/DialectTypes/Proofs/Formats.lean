import DialectTypes.Proofs.AlikeDocuments
import DialectTypes.Proofs.JsonText
import DialectTypes.Proofs.TomlOrder

/-!
# Options in JSON and in TOML

Options are read alike from a JSON text and a TOML text that denote the same table. The
members of a TOML document are in ascending order of their keys, wherever the lines of
the text stand, so what is reported of them comes in that order; what is reported of JSON
comes in text order. If one value does not fit its option, both texts are refused for the
same reason, but the two messages may show the value differently if it is a number.
-/

namespace DialectTypes

namespace Options

variable {α : Type} [Options α] {text : String} {d : Document}

/-- A JSON text is read as the document that it denotes. -/
theorem ofJson_of_denotes (h : Json.Denotes text d) :
    (ofJson text : Except ReadError (Traced α)) = read d := by
  rw [ofJson, Json.source_of_denotes h, Reader.whole]
  cases (read d : Except ReadError (Traced α)) <;> rfl

/-- A TOML text is read as its document. -/
theorem ofToml_of_document (h : Toml.document? text = some d) :
    (ofToml text : Except Toml.ConfigError (Traced α)) = (read d).mapError Toml.ConfigError.mk := by
  simp only [ofToml, Toml.read, h]
  cases (read d : Except ReadError (Traced α)) <;> rfl

theorem ofToml_eq_ok_iff (h : Toml.document? text = some d) {t : Traced α} :
    ofToml text = .ok t ↔ read d = .ok t := by
  rw [ofToml_of_document h]
  cases (read d : Except ReadError (Traced α)) <;> simp [Except.mapError]

end Options

open Document Options

variable {Same : Number → Number → Prop} {α : Type} [Options α]

/-- A JSON text and a TOML text, of which these are the documents, are read alike as options
of a type. -/
structure ReadAlike (Same : Number → Number → Prop) (α : Type) [Options α]
    (json toml : String) (d e : Document) : Prop where
  accepted : (∃ t : Traced α, ofJson json = .ok t) ↔ ∃ t : Traced α, ofToml toml = .ok t
  /-- The same options are read; each text has its reports in the order of its members. -/
  agree : ∀ t u : Traced α, ofJson json = .ok t → ofToml toml = .ok u →
    t.value = u.value ∧ t.events.Perm u.events ∧
      t.events = reportsOf (keys α) d.members ∧ u.events = reportsOf (keys α) e.members
  /-- If one known option has a value that does not fit, both texts are refused for it. -/
  refused : (∃! k, k ∈ keys α ∧ ∃ v ∈ d.values k.text, ¬ k.Fits v) →
    ∃ f g expected, f.Alike Same g ∧
      (ofJson json : Except ReadError (Traced α)) = .error (.invalidType f expected) ∧
      (ofToml toml : Except Toml.ConfigError (Traced α)) = .error ⟨.invalidType g expected⟩

/-- A value that does not fit is the only one in a table that has nothing else. -/
theorem existsUnique_misfit {keys : List OptionName} {k : OptionName} {v : Document}
    (hk : k ∈ keys) (hv : ¬ k.Fits v) :
    ∃! j, j ∈ keys ∧ ∃ w ∈ (Document.object [(some k.text, v)] true).values j.text, ¬ j.Fits w := by
  refine ⟨k, ⟨hk, v, mem_values_iff.mpr (List.mem_singleton_self _), hv⟩, ?_⟩
  rintro j ⟨-, w, hw, -⟩
  obtain ⟨hkey, -⟩ := Prod.mk.inj (List.mem_singleton.mp (mem_values_iff.mp hw))
  exact OptionName.text_injective (Option.some.inj hkey)

theorem readAlike_of_alike [LawfulOptions α] {json toml : String}
    {ms ns : List (Option String × Document)} (hd : Json.Denotes json (.object ms true))
    (he : Toml.document? toml = some (.object ns true)) (h : AlikeMembers Same ms ns) :
    ReadAlike Same α json toml (.object ms true) (.object ns true) := by
  refine ⟨?_, ?_, ?_⟩
  · simp only [ofJson_of_denotes hd, ofToml_eq_ok_iff he, read_object_eq_ok_iff,
      h.fitsOptions_iff]
    simp
  · intro t u ht hu
    rw [ofJson_of_denotes hd, read_object_eq_ok_iff] at ht
    rw [ofToml_eq_ok_iff he, read_object_eq_ok_iff] at hu
    obtain ⟨-, rfl⟩ := ht
    obtain ⟨-, rfl⟩ := hu
    exact ⟨h.ofMembers_value, h.reportsOf_perm, rfl, rfl⟩
  · rintro ⟨k, ⟨hk, v, hv, hmisfit⟩, hunique⟩
    rw [mem_values_iff] at hv
    obtain ⟨⟨_, w⟩, hw, hkey, hvw⟩ := h.exists_right _ hv
    obtain rfl : _ = some k.text := hkey
    have hothers : ∀ m ∈ ms, ∀ j ∈ keys α, m.1 = some j.text → j ≠ k → j.Fits m.2 := by
      rintro ⟨_, v'⟩ hm j hj rfl hne
      by_contra hfits
      exact hne (hunique j ⟨hj, v', mem_values_iff.mpr hm, hfits⟩)
    have hothers' : ∀ n ∈ ns, ∀ j ∈ keys α, n.1 = some j.text → j ≠ k → j.Fits n.2 := by
      intro n hn j hj hnkey hne
      obtain ⟨m, hm, hkey, hmn⟩ := h.exists_left n hn
      exact (OptionName.fits_iff_of_alike hmn).mp (hothers m hm j hj (hkey ▸ hnkey) hne)
    obtain ⟨s, hs, -⟩ | ⟨f, g, expected, hfg, hf, hg⟩ :=
      (OptionName.sameOutcome_read k hvw).cases_eq
    · exact absurd (OptionName.exists_read_iff.mp ⟨s, hs⟩) hmisfit
    · refine ⟨f, g, expected, hfg, ?_, ?_⟩
      · rw [ofJson_of_denotes hd]
        exact h.faultless_left.read_eq_error hk hv hothers hf
      · rw [ofToml_of_document he, h.faultless_right.read_eq_error hk hw hothers' hg]
        rfl

/-- JSON and TOML are read alike. If a JSON text and a TOML text denote the same table,
where `Same` tells which numbers are the same, then both or neither are read as options,
the options are the same, and so are the reports up to their order. If exactly one value
of a known option does not fit, both are refused for it, with messages that differ at most
in how a number is shown. -/
theorem json_and_toml_read_alike (Same : Number → Number → Prop) (json toml : String)
    (d e : Document) (hd : Json.Denotes json d) (he : Toml.document? toml = some e)
    (h : d.Alike Same e) :
    InKeyOrder e.members ∧ ReadAlike Same PostgresOptions json toml d e ∧
      ReadAlike Same PostgresAdapterOptions json toml d e ∧
      ReadAlike Same IntrospectorOptions json toml d e := by
  obtain ⟨ns, rfl, horder⟩ := Toml.document?_inKeyOrder he
  cases h with
  | object h =>
      exact ⟨horder, readAlike_of_alike hd he h, readAlike_of_alike hd he h,
        readAlike_of_alike hd he h⟩

section Examples

/-- Options with two parsers that are not recognized and a member for none of them. -/
def sharedJson : String :=
  "\x7b\"x\": [1, 1.5], \"numericParser\": \"bignum\", \"domains\": true, " ++
    "\"dateParser\": \"noon\"\x7d"

def sharedToml : String :=
  "domains = true\nx = [1, 1.5] # none\ndateParser = 'noon'\nnumericParser = \"bignum\""

def sharedX : Document :=
  .array [.number (some (.integer 1)), .number (some (.float "1.5"))] true

/-- The members in the order of the JSON text. -/
def sharedInText : List (Option String × Document) :=
  [(some "x", sharedX), (some "numericParser", .string (some "bignum")),
    (some "domains", .bool true), (some "dateParser", .string (some "noon"))]

/-- The members in the order of their keys. -/
def sharedInOrder : List (Option String × Document) :=
  [(some "dateParser", .string (some "noon")), (some "domains", .bool true),
    (some "numericParser", .string (some "bignum")), (some "x", sharedX)]

/-- A list of schemas with a number in it. -/
def refusedJson : String :=
  "\x7b\"defaultSchemas\":[\"a\",1.5]\x7d"

def refusedToml : String :=
  "defaultSchemas = ['a', 1.5]"

def refusedMembers : List (Option String × Document) :=
  [(some "defaultSchemas", .array [.string (some "a"), .number (some (.float "1.5"))] true)]

theorem alikeMembers_shared : AlikeMembers Eq sharedInText sharedInOrder := by
  have hx : sharedX.Alike Eq sharedX := .array (.cons (.number rfl) (.cons (.number rfl) .nil))
  refine .cons hx (.cons (.string _) (.cons (.bool _) (.cons (.string _) .nil ?_ (.refl _)) ?_
    (.refl _)) ?_ (.refl _)) ?_ ?_
  all_goals decide

theorem alikeMembers_refused : AlikeMembers Eq refusedMembers refusedMembers :=
  .cons (.array (.cons (.string _) (.cons (.number rfl) .nil))) .nil (by decide) (.refl _)

theorem shared_and_refused_read_alike :
    Json.Denotes sharedJson (.object sharedInText true) ∧
    Toml.document? sharedToml = some (.object sharedInOrder true) ∧
    (Document.object sharedInText true).Alike Eq (.object sharedInOrder true) ∧
    (∃ t u : Traced PostgresOptions, ofJson sharedJson = .ok t ∧ ofToml sharedToml = .ok u ∧
      t.value = u.value ∧
      t.events = [.ignored "numericParser" "bignum", .ignored "dateParser" "noon"] ∧
      u.events = [.ignored "dateParser" "noon", .ignored "numericParser" "bignum"]) ∧
    Json.Denotes refusedJson (.object refusedMembers true) ∧
    Toml.document? refusedToml = some (.object refusedMembers true) ∧
    (Document.object refusedMembers true).Alike Eq (.object refusedMembers true) ∧
    ∃ f g expected, f.Alike Eq g ∧
      (ofJson refusedJson : Except ReadError (Traced IntrospectorOptions)) =
        .error (.invalidType f expected) ∧
      (ofToml refusedToml : Except Toml.ConfigError (Traced IntrospectorOptions)) =
        .error ⟨.invalidType g expected⟩ := by
  have hjson : Json.Denotes sharedJson (.object sharedInText true) :=
    Json.denotes_of_source (by decide +kernel) (by decide)
  have htoml : Toml.document? sharedToml = some (.object sharedInOrder true) := by decide +kernel
  have hrefusedJson : Json.Denotes refusedJson (.object refusedMembers true) :=
    Json.denotes_of_source (by decide +kernel) (by decide)
  have hrefusedToml : Toml.document? refusedToml = some (.object refusedMembers true) := by
    decide +kernel
  obtain ⟨-, hshared, -⟩ := json_and_toml_read_alike Eq sharedJson sharedToml _ _ hjson htoml
    (.object alikeMembers_shared)
  obtain ⟨-, -, -, hrefused⟩ := json_and_toml_read_alike Eq refusedJson refusedToml _ _
    hrefusedJson hrefusedToml (.object alikeMembers_refused)
  have ht : ofJson sharedJson = .ok (ofMembers PostgresOptions sharedInText) := by decide +kernel
  obtain ⟨u, hu⟩ := hshared.accepted.mp ⟨_, ht⟩
  obtain ⟨hvalue, -, -, hevents⟩ := hshared.agree _ u ht hu
  refine ⟨hjson, htoml, .object alikeMembers_shared, ⟨_, u, ht, hu, hvalue, by decide, ?_⟩,
    hrefusedJson, hrefusedToml, .object alikeMembers_refused, hrefused.refused ?_⟩
  · rw [hevents]
    decide
  · refine existsUnique_misfit (k := .defaultSchemas) (by decide) fun hfits => ?_
    obtain ⟨s, hs⟩ := OptionName.exists_read_iff.mpr hfits
    cases hs

/-- The two are one number: the same integer, or the same binary number as JSON and as TOML
show it. -/
inductive SameNumber : Number → Number → Prop where
  | integer (n : Int) : SameNumber (.integer n) (.integer n)
  | float (negative : Bool) (x : Numeral.Binary64) :
      SameNumber (.float (Json.NumberText.layout.text negative x))
        (.float (Toml.layout.text negative x))

def largeJson : String :=
  "\x7b\"domains\":1e16\x7d"

def largeToml : String :=
  "domains = 1e16"

def largeMembers (text : String) : List (Option String × Document) :=
  [(some "domains", .number (some (.float text)))]

/-- Messages are not always the same: a large number is shown by an exponent in one format
and with all its digits in the other. -/
theorem large_number_shown_apart :
    Json.Denotes largeJson (.object (largeMembers "1e+16") true) ∧
    Toml.document? largeToml = some (.object (largeMembers "10000000000000000.0") true) ∧
    (Document.object (largeMembers "1e+16") true).Alike SameNumber
      (.object (largeMembers "10000000000000000.0") true) ∧
    (∃! k, k ∈ keys PostgresOptions ∧
      ∃ v ∈ (Document.object (largeMembers "1e+16") true).values k.text, ¬ k.Fits v) ∧
    ∃ inJson inToml : ReadError,
      (ofJson largeJson : Except ReadError (Traced PostgresOptions)) = .error inJson ∧
      (ofToml largeToml : Except Toml.ConfigError (Traced PostgresOptions)) = .error ⟨inToml⟩ ∧
      inJson.message? = some "invalid type: floating point `1e+16`, expected a boolean" ∧
      inToml.message? =
        some "invalid type: floating point `10000000000000000.0`, expected a boolean" := by
  have hsame : SameNumber (.float "1e+16") (.float "10000000000000000.0") := by
    have hx := SameNumber.float false (Json.powerOfTen 16)
    have hjson : Json.NumberText.layout.text false (Json.powerOfTen 16) = "1e+16" := by
      decide +kernel
    have htoml : Toml.layout.text false (Json.powerOfTen 16) = "10000000000000000.0" := by
      decide +kernel
    rwa [hjson, htoml] at hx
  refine ⟨Json.denotes_of_source (by decide +kernel) (by decide), by decide +kernel,
    .object (.cons (.number hsame) .nil (by decide) (.refl _)), ?_,
    .invalidType (.number (.float "1e+16")) .boolean,
    .invalidType (.number (.float "10000000000000000.0")) .boolean,
    by decide +kernel, by decide +kernel, by decide, by decide⟩
  refine existsUnique_misfit (k := .domains) (by decide) fun hfits => ?_
  obtain ⟨enabled, henabled⟩ := hfits
  cases henabled

end Examples

end DialectTypes
