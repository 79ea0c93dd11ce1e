import DialectTypes.Proofs.OptionReading
import Mathlib.Data.List.Nodup

/-!
# Documents that denote the same

Two formats may give one table differently: its members may stand in any order, and each
format shows numbers in its own way. Documents are alike if they differ in nothing else,
where a relation tells which numbers are the same. From alike documents the same options
are read. If one value does not fit, both are refused with errors that differ at most in
how a number is shown.
-/

namespace DialectTypes

namespace Document

mutual

/-- The documents denote the same data, in which nothing is null and no table has a key
twice. -/
inductive Alike (Same : Number → Number → Prop) : Document → Document → Prop where
  | bool (b : Bool) : Alike Same (.bool b) (.bool b)
  | number {m n : Number} (h : Same m n) : Alike Same (.number (some m)) (.number (some n))
  | string (s : String) : Alike Same (.string (some s)) (.string (some s))
  | array {ds es : List Document} (h : AlikeItems Same ds es) :
      Alike Same (.array ds true) (.array es true)
  | object {ms ns : List (Option String × Document)} (h : AlikeMembers Same ms ns) :
      Alike Same (.object ms true) (.object ns true)

/-- The items of two sequences are alike one by one. -/
inductive AlikeItems (Same : Number → Number → Prop) :
    List Document → List Document → Prop where
  | nil : AlikeItems Same [] []
  | cons {d e : Document} {ds es : List Document} (h : Alike Same d e)
      (hs : AlikeItems Same ds es) : AlikeItems Same (d :: ds) (e :: es)

/-- Two tables have alike values under the same keys, in whatever order. -/
inductive AlikeMembers (Same : Number → Number → Prop) :
    List (Option String × Document) → List (Option String × Document) → Prop where
  | nil : AlikeMembers Same [] []
  | cons {key : String} {v w : Document} {ms ns ns' : List (Option String × Document)}
      (h : Alike Same v w) (hs : AlikeMembers Same ms ns) (hnew : some key ∉ ms.map Prod.fst)
      (hperm : ns'.Perm ((some key, w) :: ns)) : AlikeMembers Same ((some key, v) :: ms) ns'

end

variable {Same : Number → Number → Prop}

/-- A table in which every member has a key of its own, and a value whose text goes to its
end. -/
structure Faultless (ms : List (Option String × Document)) : Prop where
  intact : ∀ m ∈ ms, m.1.isSome = true ∧ m.2.intact = true
  distinct : (ms.map Prod.fst).Nodup

mutual

theorem Alike.intact : ∀ {d e : Document}, Alike Same d e → d.intact = true ∧ e.intact = true
  | _, _, .bool _ | _, _, .number _ | _, _, .string _ => ⟨rfl, rfl⟩
  | _, _, .array h => by
      simp only [Document.intact, Bool.true_and, intactItems_iff]
      exact ⟨h.intact.1, h.intact.2⟩
  | _, _, .object h => by
      simp only [Document.intact, Bool.true_and, intactMembers_iff]
      exact ⟨fun m hm => (h.intact.1 m hm).2, fun n hn => (h.intact.2 n hn).2⟩

theorem AlikeItems.intact : ∀ {ds es : List Document}, AlikeItems Same ds es →
    (∀ d ∈ ds, d.intact = true) ∧ ∀ e ∈ es, e.intact = true
  | _, _, .nil => ⟨nofun, nofun⟩
  | _, _, .cons h hs =>
      ⟨List.forall_mem_cons.mpr ⟨h.intact.1, hs.intact.1⟩,
        List.forall_mem_cons.mpr ⟨h.intact.2, hs.intact.2⟩⟩

theorem AlikeMembers.intact : ∀ {ms ns : List (Option String × Document)},
    AlikeMembers Same ms ns →
    (∀ m ∈ ms, m.1.isSome = true ∧ m.2.intact = true) ∧
      ∀ n ∈ ns, n.1.isSome = true ∧ n.2.intact = true
  | _, _, .nil => ⟨nofun, nofun⟩
  | _, _, .cons h hs _ hperm => by
      refine ⟨List.forall_mem_cons.mpr ⟨⟨rfl, h.intact.1⟩, hs.intact.1⟩, fun n hn => ?_⟩
      obtain rfl | hn := List.mem_cons.mp (hperm.mem_iff.mp hn)
      · exact ⟨rfl, h.intact.2⟩
      · exact hs.intact.2 n hn

end

namespace AlikeMembers

variable {β : Type} {ms ns : List (Option String × Document)}

/-- What members give that do not tell alike values apart, two alike tables give in some
order. -/
theorem flatMap_perm {f : Option String × Document → List β}
    (hf : ∀ key v w, Alike Same v w → f (some key, v) = f (some key, w)) :
    ∀ {ms ns : List (Option String × Document)}, AlikeMembers Same ms ns →
    (ms.flatMap f).Perm (ns.flatMap f)
  | _, _, .nil => .refl _
  | _, _, .cons h hs _ hperm => by
      refine .trans ?_ (hperm.flatMap_right f).symm
      rw [List.flatMap_cons, List.flatMap_cons, hf _ _ _ h]
      exact (flatMap_perm hf hs).append_left _

theorem keys_perm (h : AlikeMembers Same ms ns) : (ms.map Prod.fst).Perm (ns.map Prod.fst) := by
  simpa [← List.map_eq_flatMap] using h.flatMap_perm (f := fun m => [m.1]) fun _ _ _ _ => rfl

theorem keys_nodup : ∀ {ms ns : List (Option String × Document)}, AlikeMembers Same ms ns →
    (ms.map Prod.fst).Nodup
  | _, _, .nil => .nil
  | _, _, .cons _ hs hnew _ => List.nodup_cons.mpr ⟨hnew, keys_nodup hs⟩

theorem faultless_left (h : AlikeMembers Same ms ns) : Faultless ms :=
  ⟨h.intact.1, h.keys_nodup⟩

theorem faultless_right (h : AlikeMembers Same ms ns) : Faultless ns :=
  ⟨h.intact.2, h.keys_perm.nodup_iff.mp h.keys_nodup⟩

theorem exists_right : ∀ {ms ns : List (Option String × Document)}, AlikeMembers Same ms ns →
    ∀ m ∈ ms, ∃ n ∈ ns, n.1 = m.1 ∧ Alike Same m.2 n.2
  | _, _, .cons h hs _ hperm, m, hm => by
      obtain rfl | hm := List.mem_cons.mp hm
      · exact ⟨_, hperm.mem_iff.mpr List.mem_cons_self, rfl, h⟩
      · obtain ⟨n, hn, hmn⟩ := exists_right hs m hm
        exact ⟨n, hperm.mem_iff.mpr (.tail _ hn), hmn⟩

theorem exists_left : ∀ {ms ns : List (Option String × Document)}, AlikeMembers Same ms ns →
    ∀ n ∈ ns, ∃ m ∈ ms, n.1 = m.1 ∧ Alike Same m.2 n.2
  | _, _, .cons h hs _ hperm, n, hn => by
      obtain rfl | hn := List.mem_cons.mp (hperm.mem_iff.mp hn)
      · exact ⟨_, List.mem_cons_self, rfl, h⟩
      · obtain ⟨m, hm, hmn⟩ := exists_left hs n hn
        exact ⟨m, .tail _ hm, hmn⟩

end AlikeMembers

end Document

/-- What is found in alike documents. -/
inductive Found.Alike (Same : Number → Number → Prop) : Found → Found → Prop where
  | same (f : Found) : Alike Same f f
  | number {m n : Number} (h : Same m n) : Alike Same (.number m) (.number n)

namespace Reader

variable {α β : Type} {Same : Number → Number → Prop} {d e : Document}

/-- Two readers give the same value, or they meet the same mismatch, where a number may be
shown differently. -/
inductive SameOutcome (Same : Number → Number → Prop) {α : Type} :
    Except ReadError α → Except ReadError α → Prop where
  | ok (a : α) : SameOutcome Same (.ok a) (.ok a)
  | mismatch {f g : Found} (h : f.Alike Same g) (expected : Expected) :
      SameOutcome Same (.error (.invalidType f expected)) (.error (.invalidType g expected))

theorem SameOutcome.bind {result result' : Except ReadError α}
    {next next' : α → Except ReadError β} (h : SameOutcome Same result result')
    (hn : ∀ a, SameOutcome Same (next a) (next' a)) :
    SameOutcome Same (result >>= next) (result' >>= next') := by
  cases h with
  | ok a => exact hn a
  | mismatch h expected => exact .mismatch h expected

theorem SameOutcome.map {result result' : Except ReadError α}
    (h : SameOutcome Same result result') (f : α → β) :
    SameOutcome Same (f <$> result) (f <$> result') := by
  cases h with
  | ok a => exact .ok (f a)
  | mismatch h expected => exact .mismatch h expected

theorem SameOutcome.exists_ok_iff {result result' : Except ReadError α}
    (h : SameOutcome Same result result') : (∃ a, result = .ok a) ↔ ∃ a, result' = .ok a := by
  cases h with
  | ok a => exact Iff.rfl
  | mismatch h expected => exact ⟨nofun, nofun⟩

theorem SameOutcome.cases_eq {result result' : Except ReadError α}
    (h : SameOutcome Same result result') :
    (∃ a, result = .ok a ∧ result' = .ok a) ∨
      ∃ f g expected, f.Alike Same g ∧ result = .error (.invalidType f expected) ∧
        result' = .error (.invalidType g expected) := by
  cases h with
  | ok a => exact Or.inl ⟨a, rfl, rfl⟩
  | mismatch h expected => exact Or.inr ⟨_, _, expected, h, rfl, rfl⟩

theorem sameOutcome_mismatch (h : d.Alike Same e) (expected : Expected) :
    SameOutcome Same (mismatch expected d : Except ReadError α) (mismatch expected e) := by
  cases h with
  | number h => exact .mismatch (.number h) expected
  | _ => exact .mismatch (.same _) expected

theorem sameOutcome_string (h : d.Alike Same e) : SameOutcome Same (string d) (string e) := by
  have hmismatch : SameOutcome Same (mismatch .string d : Except ReadError String)
    (mismatch .string e) := sameOutcome_mismatch h .string
  cases h with
  | string s => exact .ok s
  | _ => exact hmismatch

theorem sameOutcome_bool (h : d.Alike Same e) : SameOutcome Same (bool d) (bool e) := by
  have hmismatch : SameOutcome Same (mismatch .boolean d : Except ReadError Bool)
    (mismatch .boolean e) := sameOutcome_mismatch h .boolean
  cases h with
  | bool b => exact .ok b
  | _ => exact hmismatch

theorem sameOutcome_items {read : Reader α}
    (hread : ∀ d e, d.Alike Same e → SameOutcome Same (read d) (read e)) :
    ∀ {ds es : List Document}, Document.AlikeItems Same ds es →
    SameOutcome Same (items read ds) (items read es)
  | _, _, .nil => .ok []
  | _, _, .cons h hs =>
      (hread _ _ h).bind fun _ => (sameOutcome_items hread hs).bind fun _ => .ok _

theorem sameOutcome_list {read : Reader α}
    (hread : ∀ d e, d.Alike Same e → SameOutcome Same (read d) (read e))
    (h : d.Alike Same e) : SameOutcome Same (list read d) (list read e) := by
  have hmismatch : SameOutcome Same (mismatch .sequence d : Except ReadError (List α))
    (mismatch .sequence e) := sameOutcome_mismatch h .sequence
  cases h with
  | array h => exact (sameOutcome_items hread h).bind fun as => .ok as
  | _ => exact hmismatch

/-- Nothing is null in alike documents. -/
theorem sameOutcome_optional {read : Reader α}
    (hread : ∀ d e, d.Alike Same e → SameOutcome Same (read d) (read e))
    (h : d.Alike Same e) : SameOutcome Same (optional read d) (optional read e) := by
  have hsome : SameOutcome Same (some <$> read d) (some <$> read e) := (hread d e h).map some
  cases h <;> exact hsome

end Reader

namespace OptionName

open Reader

variable {Same : Number → Number → Prop} {k : OptionName} {v w : Document}

theorem sameOutcome_read (k : OptionName) (h : v.Alike Same w) :
    SameOutcome Same (k.read v) (k.read w) := by
  have hchoice : ∀ {α : Type} [Choice α] (setting : α → Setting),
      SameOutcome Same (readChoice setting v) (readChoice setting w) := by
    intro α _ setting
    refine (sameOutcome_optional (fun _ _ => sameOutcome_string) h).bind fun o => ?_
    split
    · exact .ok _
    · split <;> exact .ok _
  cases k with
  | dateParser | numericParser | timestampParser => exact hchoice _
  | defaultSchemas =>
      refine (sameOutcome_optional (fun d e => ?_) h).bind fun _ => .ok _
      exact sameOutcome_list fun _ _ => sameOutcome_string
  | domains | partitions => exact (sameOutcome_bool h).bind fun _ => .ok _

theorem fits_iff_of_alike (h : v.Alike Same w) : k.Fits v ↔ k.Fits w := by
  rw [← exists_read_iff, ← exists_read_iff]
  exact (sameOutcome_read k h).exists_ok_iff

theorem meaning_eq_of_alike (h : v.Alike Same w) : k.meaning v = k.meaning w := by
  have hread := sameOutcome_read k h
  unfold meaning
  generalize k.read v = result, k.read w = result' at hread ⊢
  cases hread <;> rfl

end OptionName

open Document OptionName

variable {Same : Number → Number → Prop} {keys : List OptionName}
  {ms ns : List (Option String × Document)}

theorem Document.Faultless.fitsOptions_iff (h : Faultless ms) :
    FitsOptions keys ms ↔ ∀ m ∈ ms, ∀ k ∈ keys, m.1 = some k.text → k.Fits m.2 := by
  refine ⟨FitsOptions.fits, fun hfits => ⟨h.intact, ?_, hfits⟩⟩
  refine (List.pairwise_map.mp h.distinct).imp fun hne k _ hm hn => ?_
  exact hne (hm.trans hn.symm)

/-- If the value of one option does not fit, and every other value does, then that value
is what is reported, wherever it stands. -/
theorem Document.Faultless.read_eq_error {α : Type} [Options α] (h : Faultless ms)
    {k : OptionName} {v : Document} {e : ReadError} (hk : k ∈ Options.keys α)
    (hv : (some k.text, v) ∈ ms)
    (hothers : ∀ m ∈ ms, ∀ j ∈ Options.keys α, m.1 = some j.text → j ≠ k → j.Fits m.2)
    (he : k.read v = .error e) :
    (Options.read (.object ms true) : Except ReadError (Traced α)) = .error e := by
  obtain ⟨before, after, rfl⟩ := List.append_of_mem hv
  have hdistinct := h.distinct
  rw [List.map_append, List.map_cons, List.nodup_middle, List.nodup_cons, List.mem_append,
    not_or] at hdistinct
  obtain ⟨⟨hnew, -⟩, hdistinct⟩ := hdistinct
  have hne : ∀ m ∈ before, m.1 ≠ some k.text :=
    fun m hm hkey => hnew (List.mem_map.mpr ⟨m, hm, hkey⟩)
  have hbefore : Faultless before :=
    ⟨fun m hm => h.intact m (List.mem_append_left _ hm), hdistinct.of_append_left⟩
  refine Options.read_eq_error (hbefore.fitsOptions_iff.mpr ?_) hne hk he
  intro m hm j hj hkey
  refine hothers m (List.mem_append_left _ hm) j hj hkey ?_
  rintro rfl
  exact hne m hm hkey

/-- Settings of one table are for different options. -/
theorem Document.Faultless.setting_eq (h : Faultless ms) {s t : Setting}
    (hs : s ∈ Options.settingsOf keys ms) (ht : t ∈ Options.settingsOf keys ms)
    (hkey : s.key = t.key) : s = t := by
  have hmember : ∀ s ∈ Options.settingsOf keys ms,
      ∃ m ∈ ms, m.1 = some s.key.text ∧ s ∈ (taken keys m).value := by
    intro s hs
    obtain ⟨m, hm, hs⟩ := List.mem_flatMap.mp hs
    refine ⟨m, hm, ?_, Option.mem_toList.mp hs⟩
    rw [taken] at hs
    cases hk : ofMember? keys m with
    | none => simp [hk] at hs
    | some k =>
        rw [hk] at hs
        rw [key_of_meaning (Option.mem_toList.mp hs)]
        exact (mem_ofMember?_iff.mp hk).2
  obtain ⟨m, hm, hmkey, hms⟩ := hmember s hs
  obtain ⟨n, hn, hnkey, hnt⟩ := hmember t ht
  obtain rfl : m = n :=
    List.inj_on_of_nodup_map h.distinct hm hn (by rw [hmkey, hnkey, hkey])
  exact Option.some.inj (hms.symm.trans hnt)

namespace Document.AlikeMembers

theorem fitsOptions_iff (h : AlikeMembers Same ms ns) :
    FitsOptions keys ms ↔ FitsOptions keys ns := by
  rw [h.faultless_left.fitsOptions_iff, h.faultless_right.fitsOptions_iff]
  constructor
  · intro hfits n hn k hk hnkey
    obtain ⟨m, hm, hkey, hmn⟩ := h.exists_left n hn
    exact (fits_iff_of_alike hmn).mp (hfits m hm k hk (hkey ▸ hnkey))
  · intro hfits m hm k hk hmkey
    obtain ⟨n, hn, hkey, hmn⟩ := h.exists_right m hm
    exact (fits_iff_of_alike hmn).mpr (hfits n hn k hk (hkey ▸ hmkey))

theorem taken_eq (key : String) {v w : Document} (h : v.Alike Same w) :
    taken keys (some key, v) = taken keys (some key, w) := by
  have hsame : ofMember? keys (some key, v) = ofMember? keys (some key, w) := rfl
  rw [taken, taken, hsame]
  simp only [meaning_eq_of_alike h]

theorem settingsOf_perm (h : AlikeMembers Same ms ns) :
    (Options.settingsOf keys ms).Perm (Options.settingsOf keys ns) :=
  h.flatMap_perm fun key _ _ hvw => by rw [taken_eq key hvw]

theorem reportsOf_perm (h : AlikeMembers Same ms ns) :
    (Options.reportsOf keys ms).Perm (Options.reportsOf keys ns) :=
  h.flatMap_perm fun key _ _ hvw => by rw [taken_eq key hvw]

/-- Alike tables make the same options: their settings are for different options, so they
may be made in any order. -/
theorem ofMembers_value {α : Type} [Options α] [LawfulOptions α] (h : AlikeMembers Same ms ns) :
    (Options.ofMembers α ms).value = (Options.ofMembers α ns).value := by
  refine h.settingsOf_perm.foldl_eq' (fun s hs t ht o => ?_) Options.initial
  by_cases hkey : s.key = t.key
  · rw [h.faultless_left.setting_eq hs ht hkey]
  · exact LawfulOptions.set_comm o s t hkey

end Document.AlikeMembers

end DialectTypes
