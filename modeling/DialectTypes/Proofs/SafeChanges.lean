import DialectTypes.Proofs.Defects

/-!
# Changes that keep an adapter valid

A change is safe if everything to which the new type refers is explained, and if a new
definition takes no name of an import and is no alias of a definition. A safe change keeps
an adapter valid. What was explained stays explained. The changed definition may have been
a link of a chain of aliases, and its name may be that of a builtin at which a chain ended,
but now every chain that comes to it ends there or one step after it.
-/

namespace DialectTypes

namespace Adapter

/-- What validation demands, one sort of defect after another. -/
structure Flawless (a : Adapter) : Prop where
  unambiguous : ∀ n, ¬ a.Ambiguous n
  explained : ∀ p n, ¬ a.Dangles p n
  terminating : ∀ n, ¬ a.Endless n

/-- The new type refers to names that are known; a definition may refer to itself, but it
takes no name of an import and is no alias of a definition. -/
inductive Change.Safe (a : Adapter) : Change → Prop where
  | definition {d : String} {m : TypeExpr} (himport : d ∉ a.imports.keys)
      (hknown : ∀ n, m.Occurs n → a.knows n = true ∨ n = d)
      (halias : ∀ n, m = .identifier n → n ∉ a.definitions.keys ∧ n ≠ d) :
      Safe a (.definition d m)
  | scalar {native : String} {m : TypeExpr} (hknown : ∀ n, m.Occurs n → a.knows n = true) :
      Safe a (.scalar native m)
  | defaultScalar {m : TypeExpr} (hknown : ∀ n, m.Occurs n → a.knows n = true) :
      Safe a (.defaultScalar m)

/-- Each change is safe for the adapter that the changes before it made. -/
inductive SafeLog : Adapter → List Change → Prop where
  | nil (a : Adapter) : SafeLog a []
  | cons {a : Adapter} {c : Change} {log : List Change} (h : c.Safe a)
      (hs : SafeLog (a.apply c) log) : SafeLog a (c :: log)

variable {a b : Adapter}

theorem validate_eq_ok_iff_flawless : a.validate = .ok () ↔ a.Flawless := by
  rw [validate_eq_iff]
  constructor
  · rintro ⟨⟩
    exact ⟨‹_›, ‹_›, ‹_›⟩
  · rintro ⟨ha, hd, he⟩
    exact .valid ha hd he

theorem not_unknown_of_knows {n : String} (h : a.knows n = true) : ¬ a.Unknown n := by
  rw [← knows_eq_false_iff, h]
  nofun

/-- A chain has no end in any adapter with the same aliases along it. -/
theorem Endless.transfer {n : String} (h : b.Endless n)
    (hsame : ∀ k, b.Endless k → a.aliasOf? k = b.aliasOf? k) : a.Endless n := by
  refine endless_of_closed (P := b.Endless) (fun k hk => ?_) h
  cases ht : b.aliasOf? k with
  | none => exact absurd hk (not_endless_of_aliasOf?_eq_none ht)
  | some target =>
      exact ⟨target, (hsame k hk).trans ht, (endless_iff_of_aliasOf?_eq_some ht).mp hk⟩

/-- Two adapters that differ in one type only: no new defect arises if the names in that
type are explained and every endless chain is one of the first adapter as well. -/
theorem Flawless.replace (h : a.Flawless) {m : TypeExpr}
    (hambiguous : ∀ n, b.Ambiguous n → a.Ambiguous n)
    (hplace : ∀ p type, b.typeAt? p = some type → a.typeAt? p = some type ∨ type = m)
    (hunknown : ∀ n, b.Unknown n → a.Unknown n) (hknown : ∀ n, m.Occurs n → ¬ b.Unknown n)
    (halias : ∀ n, b.Endless n → a.aliasOf? n = b.aliasOf? n) : b.Flawless where
  unambiguous n hn := h.unambiguous n (hambiguous n hn)
  explained := by
    rintro p n ⟨type, ht, hocc, hn⟩
    obtain ht | rfl := hplace p type ht
    · exact h.explained p n ⟨type, ht, hocc, hunknown n hn⟩
    · exact hknown n hocc hn
  terminating n hn := h.terminating n (hn.transfer halias)

section Definition

variable {d n : String} {m : TypeExpr}

theorem aliasOf?_setDefinition (a : Adapter) (d : String) (m : TypeExpr) (n : String) :
    (a.setDefinition d m).aliasOf? n = if n = d then m.name? else a.aliasOf? n := by
  rw [aliasOf?, setDefinition, Registry.get?_insert]
  split <;> rfl

theorem unknown_setDefinition_iff :
    (a.setDefinition d m).Unknown n ↔ n ≠ d ∧ a.Unknown n := by
  have hkeys : n ∈ (a.setDefinition d m).definitions.keys ↔ n = d ∨ n ∈ a.definitions.keys :=
    Registry.mem_keys_insert
  rw [Unknown, hkeys, not_or]
  constructor
  · rintro ⟨hb, ⟨hne, hd⟩, hi⟩
    exact ⟨hne, hb, hd, hi⟩
  · rintro ⟨hne, hb, hd, hi⟩
    exact ⟨hb, ⟨hne, hd⟩, hi⟩

/-- A chain that comes to the new definition ends, so an endless chain does not pass it. -/
theorem ne_of_endless_setDefinition
    (halias : ∀ n, m = .identifier n → n ∉ a.definitions.keys ∧ n ≠ d)
    (h : (a.setDefinition d m).Endless n) : n ≠ d := by
  rintro rfl
  have hself : (a.setDefinition n m).aliasOf? n = m.name? := by
    rw [aliasOf?_setDefinition, if_pos rfl]
  cases ht : m.name? with
  | none => exact not_endless_of_aliasOf?_eq_none (hself.trans ht) h
  | some target =>
      have htarget := ((endless_iff_of_aliasOf?_eq_some (hself.trans ht)).mp h).mem_keys
      obtain ⟨hdefined, hne⟩ := halias target (TypeExpr.name?_eq_some_iff.mp ht)
      exact (Registry.mem_keys_insert.mp htarget).elim hne hdefined

theorem Flawless.setDefinition (h : a.Flawless) (himport : d ∉ a.imports.keys)
    (hknown : ∀ n, m.Occurs n → a.knows n = true ∨ n = d)
    (halias : ∀ n, m = .identifier n → n ∉ a.definitions.keys ∧ n ≠ d) :
    (a.setDefinition d m).Flawless := by
  refine h.replace (m := m) ?_ ?_ ?_ ?_ ?_
  · rintro n ⟨hn, hi⟩
    obtain rfl | hn := Registry.mem_keys_insert.mp hn
    · exact absurd hi himport
    · exact ⟨hn, hi⟩
  · intro p type ht
    cases p with
    | defaultScalar | scalar _ => exact Or.inl ht
    | definition n =>
        rw [typeAt?, Adapter.setDefinition, Registry.get?_insert] at ht
        split at ht
        · exact Or.inr (Option.some.inj ht).symm
        · exact Or.inl ht
  · exact fun n hn => (unknown_setDefinition_iff.mp hn).2
  · intro n hocc hn
    obtain ⟨hne, hn⟩ := unknown_setDefinition_iff.mp hn
    exact (hknown n hocc).elim (fun hk => not_unknown_of_knows hk hn) hne
  · intro n hn
    rw [aliasOf?_setDefinition, if_neg (ne_of_endless_setDefinition halias hn)]

end Definition

/-- A safe change brings no defect. -/
theorem Flawless.apply (h : a.Flawless) {c : Change} (hc : c.Safe a) : (a.apply c).Flawless := by
  cases hc with
  | definition himport hknown halias => exact h.setDefinition himport hknown halias
  | @scalar native m hknown =>
      refine h.replace (m := m) (fun _ hn => hn) ?_ (fun _ hn => hn)
        (fun n hocc => not_unknown_of_knows (hknown n hocc)) (fun _ _ => rfl)
      intro p type ht
      cases p with
      | defaultScalar | definition _ => exact Or.inl ht
      | scalar n =>
          change (a.scalars.insert native m).get? n = some type at ht
          rw [Registry.get?_insert] at ht
          split at ht
          · exact Or.inr (Option.some.inj ht).symm
          · exact Or.inl ht
  | @defaultScalar m hknown =>
      refine h.replace (m := m) (fun _ hn => hn) ?_ (fun _ hn => hn)
        (fun n hocc => not_unknown_of_knows (hknown n hocc)) (fun _ _ => rfl)
      intro p type ht
      cases p with
      | defaultScalar => exact Or.inr (Option.some.inj ht).symm
      | scalar _ | definition _ => exact Or.inl ht

/-- What one safe change keeps, a log of them keeps. -/
theorem Flawless.foldl_apply {log : List Change} (h : a.Flawless) (hs : a.SafeLog log) :
    (log.foldl Adapter.apply a).Flawless := by
  induction hs with
  | nil a => exact h
  | cons hc _ ih => exact ih (h.apply hc)

/-- A valid adapter stays valid if a definition is set that takes no import's name, refers
to known names and to itself only, and is no alias of a definition, or if a scalar or the
default scalar is set that refers to known names only. So it stays valid after any log of
such changes. -/
theorem safe_changes_keep_valid (a : Adapter) (hv : a.validate = .ok ()) :
    (∀ c : Change, c.Safe a → (a.apply c).validate = .ok ()) ∧
    ∀ log, a.SafeLog log → (log.foldl apply a).validate = .ok () := by
  simp only [validate_eq_ok_iff_flawless] at hv ⊢
  exact ⟨fun c hc => hv.apply hc, fun log hlog => hv.foldl_apply hlog⟩

/-- An alias that ends at a builtin, and two aliases in a row. -/
def stampColumns : Adapter :=
  ofChanges .postgresql
    [.definition "Id" (.identifier "Serial"), .definition "Serial" (.identifier "number"),
      .definition "Stamp" (.identifier "Date"), .imported "Moment" "moment"]

/-- The name of the builtin gets a definition that refers to itself, and the link between the
two aliases becomes a list of what it was a link to. -/
def stampOverrides : List Change :=
  [.definition "Date" (.union [.identifier "Date", .identifier "Moment"]),
    .definition "Serial" (.array (.identifier "Id")),
    .scalar "timestamp" (.record (.identifier "Stamp")),
    .definition "Stamp" (.identifier "Moment"),
    .defaultScalar (.identifier "Date")]

theorem safeLog_stampOverrides : stampColumns.SafeLog stampOverrides := by
  have hknown : ∀ (b : Adapter) (m : TypeExpr), (m.names.all b.knows = true) →
      ∀ n, m.Occurs n → b.knows n = true := by
    intro b m hall n hocc
    exact List.all_eq_true.mp hall n ((TypeExpr.mem_names_iff m).mpr hocc)
  refine .cons (.definition (by decide) (fun n hocc => Or.inl ?_) nofun) <|
    .cons (.definition (by decide) (fun n hocc => Or.inl ?_) nofun) <|
    .cons (.scalar (hknown _ _ (by decide))) <|
    .cons (.definition (by decide) (fun n hocc => Or.inl ?_) ?_) <|
    .cons (.defaultScalar (hknown _ _ (by decide))) (.nil _)
  · exact hknown _ _ (by decide) n hocc
  · exact hknown _ _ (by decide) n hocc
  · exact hknown _ _ (by decide) n hocc
  · rintro _ ⟨⟩
    decide

theorem stampColumns_stay_valid :
    stampColumns.validate = .ok () ∧ stampColumns.SafeLog stampOverrides ∧
    (stampOverrides.foldl apply stampColumns).validate = .ok () := by
  have hvalid : stampColumns.validate = .ok () := validate_eq_ok_iff.mpr (by decide +kernel)
  obtain ⟨-, hlog⟩ := safe_changes_keep_valid stampColumns hvalid
  exact ⟨hvalid, safeLog_stampOverrides, hlog stampOverrides safeLog_stampOverrides⟩

end Adapter

end DialectTypes
