import DialectTypes.Proofs.Defects
import DialectTypes.Proofs.Resolution

/-!
# Which alias a cycle is reported for

Validation reports a cycle of aliases under the least name whose chain of aliases has no
end. The chain from that name leads onto a cycle, but the name itself may come before the
cycle. It is on a cycle exactly if every name that only leads to a cycle comes after some
name on a cycle.
-/

namespace DialectTypes

namespace Adapter

variable {a : Adapter} {n : String} {k : Nat}

/-- A cycle can be gone round any number of times. -/
theorem Hops.iterate {e : TypeExpr} (h : a.Hops k e e) (times : Nat) :
    a.Hops (times * k) e e := by
  induction times with
  | zero => simpa using Hops.here e
  | succ times ih =>
      rw [Nat.succ_mul]
      exact ih.trans h

/-- The chain from a name on a cycle has no end. -/
theorem OnCycle.endless (h : a.OnCycle n) : a.Endless n := by
  obtain ⟨k, hk, hround⟩ := h
  rw [← chainEndless_identifier_iff]
  intro j
  obtain ⟨rest, hrest⟩ := Nat.exists_eq_add_of_le (Nat.le_mul_of_pos_right j hk)
  have hlong := hround.iterate j
  rw [hrest] at hlong
  obtain ⟨f, hf, _⟩ := hlong.split
  exact ⟨f, hf⟩

/-- A chain without an end leads onto a cycle. -/
theorem Endless.exists_onCycle (h : a.Endless n) :
    ∃ c, a.OnCycle c ∧ a.Hops a.definitions.size (.identifier n) (.identifier c) := by
  obtain ⟨c, _, hsize, hcycle⟩ := (chainEndless_identifier_iff.mpr h).exists_onCycle
  exact ⟨c, hcycle, hsize⟩

/-- The least name whose chain has no end is on a cycle exactly if each name that only leads
to a cycle comes after one that is on a cycle. -/
theorem LeastName.onCycle_iff (h : LeastName a.Endless n) :
    a.OnCycle n ↔ ∀ m, a.Endless m → ¬ a.OnCycle m → ∃ c, a.OnCycle c ∧ c < m := by
  constructor
  · intro hn m hm hoff
    refine ⟨n, hn, ?_⟩
    by_contra hlt
    obtain rfl := String.le_antisymm (h.2 m hm) hlt
    exact hoff hn
  · intro hbefore
    by_contra hoff
    obtain ⟨c, hc, hlt⟩ := hbefore n h.1 hoff
    exact h.2 c hc.endless hlt

theorem leastName_endless_of_validate (h : a.validate = .error (.aliasCycle n)) :
    LeastName a.Endless n := by
  cases a.validate_eq_iff.mp h with
  | aliasCycle _ _ hn => exact hn

/-- The name under which a cycle is reported leads onto a cycle, and no name on a cycle comes
before it. It is on a cycle itself exactly if every name that only leads to a cycle comes
after some name on a cycle. -/
theorem reported_alias_leads_to_cycle (h : a.validate = .error (.aliasCycle n)) :
    (∃ c, a.OnCycle c ∧ a.Hops a.definitions.size (.identifier n) (.identifier c)) ∧
    (∀ c, a.OnCycle c → ¬ c < n) ∧
    (a.OnCycle n ↔ ∀ m, a.Endless m → ¬ a.OnCycle m → ∃ c, a.OnCycle c ∧ c < m) := by
  have hleast := leastName_endless_of_validate h
  refine ⟨hleast.1.exists_onCycle, ?_, hleast.onCycle_iff⟩
  intro c hc
  exact hleast.2 c hc.endless

/-- A cycle of three definitions and a later name that leads into it. -/
def aliasIntoRing : Adapter :=
  ofChanges .postgresql
    [.definition "A" (.identifier "B"), .definition "B" (.identifier "C"),
      .definition "C" (.identifier "A"), .definition "D" (.identifier "B")]

/-- The cycle is reported for a name on it, which comes before the name that leads into it. -/
theorem aliasIntoRing_reported :
    aliasIntoRing.validate = .error (.aliasCycle "A") ∧ aliasIntoRing.OnCycle "A" ∧
    (∃ c, aliasIntoRing.OnCycle c ∧
      aliasIntoRing.Hops aliasIntoRing.definitions.size (.identifier "A") (.identifier c)) ∧
    ∀ m, aliasIntoRing.Endless m → ¬ aliasIntoRing.OnCycle m →
      ∃ c, aliasIntoRing.OnCycle c ∧ c < m := by
  have ha : aliasIntoRing.definitions.get? "A" = some (.identifier "B") := by decide
  have hb : aliasIntoRing.definitions.get? "B" = some (.identifier "C") := by decide
  have hc : aliasIntoRing.definitions.get? "C" = some (.identifier "A") := by decide
  have hcycle : aliasIntoRing.OnCycle "A" :=
    ⟨3, by decide, .next ha (.next hb (.next hc (.here _)))⟩
  have hvalidate : aliasIntoRing.validate = .error (.aliasCycle "A") := by decide +kernel
  obtain ⟨hleads, _, hiff⟩ := reported_alias_leads_to_cycle hvalidate
  exact ⟨hvalidate, hcycle, hleads, hiff.mp hcycle⟩

/-- An alias of a definition that is an alias of itself. -/
def aliasIntoLoop : Adapter :=
  ofChanges .postgresql
    [.definition "Id" (.identifier "Serial"), .definition "Serial" (.identifier "Serial")]

/-- The cycle of one definition is reported for an earlier name that only leads into it. -/
theorem aliasIntoLoop_reported_off_cycle :
    aliasIntoLoop.validate = .error (.aliasCycle "Id") ∧ ¬ aliasIntoLoop.OnCycle "Id" ∧
    aliasIntoLoop.OnCycle "Serial" := by
  have hid : aliasIntoLoop.definitions.get? "Id" = some (.identifier "Serial") := by decide
  have hserial : aliasIntoLoop.definitions.get? "Serial" = some (.identifier "Serial") := by
    decide
  have hloop : aliasIntoLoop.Hops 1 (.identifier "Serial") (.identifier "Serial") :=
    .next hserial (.here _)
  refine ⟨by decide +kernel, ?_, 1, by decide, hloop⟩
  rintro ⟨k, hk, hround⟩
  cases hround with
  | here => omega
  | @next j _ _ _ hd hrest =>
      -- After the first hop the chain stays at the other name.
      obtain rfl := Option.some.inj (hid.symm.trans hd)
      have hstay : aliasIntoLoop.Hops j (.identifier "Serial") (.identifier "Serial") := by
        simpa using hloop.iterate j
      exact absurd (hrest.unique hstay) (by decide)

end Adapter

end DialectTypes
