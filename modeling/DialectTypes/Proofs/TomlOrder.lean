import DialectTypes.Toml.Document

/-!
# The order of entries

A TOML text may give the entries of a table anywhere, but its document has the members in
ascending order of their keys. However deep the place is to which a line adds, in the
table of the document one entry is put in its place, so the table stays in order.
-/

namespace DialectTypes

/-- The members of a table are in ascending order of their keys. -/
def Document.InKeyOrder (ms : List (Option String × Document)) : Prop :=
  ms.Pairwise fun m n => ∃ key next, m.1 = some key ∧ n.1 = some next ∧ key < next

namespace Toml

/-- A change puts one entry into the table, new or in place of an old one. -/
def Inserts (change : Entries → Option Entries) : Prop :=
  ∀ entries changed, change entries = some changed →
    ∃ key node, changed = Registry.insertEntry key node entries

/-- What is put into a table further down is put into this one under the first part of
its path. -/
theorem changeAt_inserts {dotted : Bool} {change : Origin → Entries → Option Entries}
    (h : ∀ origin, Inserts (change origin)) (path : List String) (origin : Origin) :
    Inserts (changeAt dotted change path origin) := by
  intro entries changed hc
  cases path with
  | nil => exact h origin entries changed hc
  | cons key path =>
      have hput : ∀ node? : Option Node,
          (node?.bind fun node => some (Registry.insertEntry key node entries)) = some changed →
          ∃ key node, changed = Registry.insertEntry key node entries := by
        intro node? hc
        obtain ⟨node, -, hc⟩ := Option.bind_eq_some_iff.mp hc
        exact ⟨key, node, (Option.some.inj hc).symm⟩
      rw [changeAt] at hc
      split at hc
      · exact hput _ hc
      · split at hc <;> exact hput _ hc
      · exact hput _ hc
      · exact hput none hc
      · exact hput none hc

theorem addEntry_inserts (key : String) (node : Node) : Inserts (addEntry key node) := by
  intro entries changed hc
  unfold addEntry at hc
  split at hc
  · cases hc
  · exact ⟨key, node, (Option.some.inj hc).symm⟩

theorem addValue_inserts (key : Key) (d : Document) (origin : Origin) :
    Inserts (addValue key d origin) := by
  refine changeAt_inserts (fun origin entries changed hc => ?_) key.path origin
  split at hc
  · cases hc
  · exact addEntry_inserts _ _ entries changed hc

theorem addBelow_inserts (header : List String) (key : Key) (d : Document) :
    Inserts (addBelow header key d) :=
  changeAt_inserts (addValue_inserts key d) header .header

theorem addHeader_inserts (key : Key) : Inserts (addHeader key) := by
  refine changeAt_inserts (fun origin entries changed hc => ?_) key.path .header
  split at hc
  · exact ⟨_, _, (Option.some.inj hc).symm⟩
  · exact ⟨_, _, (Option.some.inj hc).symm⟩
  · cases hc

theorem addElement_inserts (key : Key) : Inserts (addElement key) := by
  refine changeAt_inserts (fun origin entries changed hc => ?_) key.path .header
  split at hc
  · exact ⟨_, _, (Option.some.inj hc).symm⟩
  · exact ⟨_, _, (Option.some.inj hc).symm⟩
  · cases hc

/-- A line puts one entry into the table of the document. -/
theorem scanLine_inserts {p q : Progress} {text rest : List Char}
    (h : scanLine p text = some (q, rest)) :
    ∃ key node, q.entries = Registry.insertEntry key node p.entries := by
  unfold scanLine at h
  split at h
  · simp only [Option.bind_eq_bind, Option.bind_eq_some_iff, Prod.exists] at h
    obtain ⟨key, after, -, h⟩ := h
    split at h
    · simp only [Option.bind_eq_some_iff, Option.pure_def, Option.some.injEq, Prod.mk.injEq] at h
      obtain ⟨changed, hc, rfl, -⟩ := h
      exact addElement_inserts key p.entries changed hc
    · cases h
  · simp only [Option.bind_eq_bind, Option.bind_eq_some_iff, Option.pure_def, Option.some.injEq,
      Prod.exists, Prod.mk.injEq] at h
    obtain ⟨key, after, -, changed, hc, rfl, -⟩ := h
    exact addHeader_inserts key p.entries changed hc
  · simp only [Option.bind_eq_bind, Option.bind_eq_some_iff, Option.pure_def, Option.some.injEq,
      Prod.exists, Prod.mk.injEq] at h
    obtain ⟨key, d, after, -, changed, hc, rfl, -⟩ := h
    exact addBelow_inserts p.header key d p.entries changed hc

/-- All lines together leave the table of the document in order. -/
theorem scanLines_ascending {p q : Progress} {text : List Char}
    (hp : p.entries.Pairwise fun e f => e.1 < f.1) (h : scanLines p text = some q) :
    q.entries.Pairwise fun e f => e.1 < f.1 := by
  fun_induction scanLines p text with
  | case1 p text ih =>
      obtain ⟨start, -, h⟩ := Option.bind_eq_some_iff.mp h
      split at h
      · cases h
        exact hp
      · obtain ⟨⟨next, rest⟩, hline, h⟩ := Option.bind_eq_some_iff.mp h
        obtain ⟨after, -, h⟩ := Option.bind_eq_some_iff.mp h
        obtain ⟨key, node, hnext⟩ := scanLine_inserts hline
        split at h
        · refine ih next after ‹_› ?_ h
          rw [hnext]
          exact Registry.insertEntry_ascending key node hp
        · cases h

theorem entryDocuments_eq (entries : Entries) :
    entryDocuments entries = entries.map fun e => (some e.1, e.2.document) := by
  induction entries with
  | nil => rfl
  | cons e entries ih => simp [entryDocuments, ih]

/-- A document of the format is a table with its members in ascending order of their keys. -/
theorem document?_inKeyOrder {text : String} {d : Document} (h : document? text = some d) :
    ∃ ns, d = .object ns true ∧ Document.InKeyOrder ns := by
  obtain ⟨p, hp, hd⟩ := Option.bind_eq_some_iff.mp h
  cases hd
  refine ⟨_, rfl, ?_⟩
  rw [entryDocuments_eq]
  exact List.pairwise_map.mpr ((scanLines_ascending .nil hp).imp fun hlt =>
    ⟨_, _, rfl, rfl, hlt⟩)

end Toml

end DialectTypes
