import DialectTypes.Proofs.AliasedNeeds
import DialectTypes.Proofs.Emission

/-!
# What an override leaves alone

Setting a definition changes what depends on it and nothing else. The dependencies of
an expression that does not reach the name stay as they are, even if the new definition
refers to itself or to a name that nothing explains. In a valid adapter the expression
also resolves to the same, although another definition is another hop that resolving
may make.

Two adapters that have the same under every name that an expression reaches in one of
them cannot be told apart by that expression. An override is a case of this.
-/

namespace DialectTypes

namespace Adapter

/-- Under every name that the expression reaches in the first adapter, the second has
the same definition or none, and the same import or none. -/
structure AgreeOn (a b : Adapter) (e : TypeExpr) : Prop where
  definitions : ∀ n, a.Reaches e n → b.definitions.get? n = a.definitions.get? n
  imports : ∀ n, a.Reaches e n → b.imports.get? n = a.imports.get? n

namespace AgreeOn

variable {a b : Adapter} {e f : TypeExpr} {n : String} {k : Nat}

/-- Adapters that agree on an expression agree on what reaches no more. -/
theorem mono (h : AgreeOn a b e) (hreach : ∀ n, a.Reaches f n → a.Reaches e n) :
    AgreeOn a b f where
  definitions n hn := h.definitions n (hreach n hn)
  imports n hn := h.imports n (hreach n hn)

theorem reaches_iff (h : AgreeOn a b e) : b.Reaches e n ↔ a.Reaches e n := by
  constructor
  · intro hr
    induction hr with
    | here ho hb => exact .here ho hb
    | through _ hd ho hb ih => exact .through ih ((h.definitions _ ih).symm.trans hd) ho hb
  · intro hr
    induction hr with
    | here ho hb => exact .here ho hb
    | through hv hd ho hb ih => exact .through ih ((h.definitions _ hv).trans hd) ho hb

theorem mem_keys_iff (h : AgreeOn a b e) (hr : a.Reaches e n) :
    n ∈ b.definitions.keys ↔ n ∈ a.definitions.keys := by
  rw [Registry.mem_keys_iff, Registry.mem_keys_iff, h.definitions n hr]

theorem mem_imports_iff (h : AgreeOn a b e) (hr : a.Reaches e n) :
    n ∈ b.imports.keys ↔ n ∈ a.imports.keys := by
  rw [Registry.mem_keys_iff, Registry.mem_keys_iff, h.imports n hr]

/-- What the second adapter finds for the expression stands where the first has it. -/
theorem placed (h : AgreeOn a b e) : (b.dependencies e).Placed a where
  definitions n hn := by
    have ⟨hr, hk⟩ := (b.mem_definitions_dependencies e).mp hn
    exact (h.mem_keys_iff (h.reaches_iff.mp hr)).mp hk
  imports n source hs := by
    have ⟨hr, hk, hi⟩ := (b.get?_imports_dependencies e).mp hs
    have ha := h.reaches_iff.mp hr
    exact ⟨fun hn => hk ((h.mem_keys_iff ha).mpr hn), h.imports n ha ▸ hi⟩
  unresolved n hn := by
    have ⟨hr, hk, hi⟩ := (b.mem_unresolved_dependencies e).mp hn
    have ha := h.reaches_iff.mp hr
    exact ⟨fun hn => hk ((h.mem_keys_iff ha).mpr hn), fun hn => hi ((h.mem_imports_iff ha).mpr hn)⟩

theorem dependencies_eq (h : AgreeOn a b e) : b.dependencies e = a.dependencies e := by
  obtain ⟨hplaced, hlists⟩ := a.dependencies_placed_and_lists e
  refine h.placed.ext hplaced fun n => ?_
  rw [(b.dependencies_placed_and_lists e).2 n, hlists n]
  exact h.reaches_iff

/-- A chain of aliases is followed in the same hops, since it passes reached names only. -/
theorem hops (h : AgreeOn a b e) (ha : a.DefinesNoBuiltin) (hk : a.Hops k e f) :
    b.Hops k e f := by
  induction hk with
  | here e => exact .here e
  | @next k m body last hd _ ih =>
      have hb := ha m (Registry.mem_keys_iff.mpr ⟨body, hd⟩)
      have hself : a.Reaches (.identifier m) m := .here .identifier hb
      have hbody : AgreeOn a b body := h.mono fun _ hn =>
        (reaches_identifier_iff hb hd).mpr (Or.inr hn)
      exact .next ((h.definitions m hself).trans hd) (ih hbody)

/-- A chain that ends in the first adapter ends in the second with the same expression. -/
theorem chainEnds (h : AgreeOn a b e) (ha : a.DefinesNoBuiltin) (hb : b.DefinesNoBuiltin)
    (hends : a.ChainEnds e f) : b.ChainEnds e f := by
  obtain ⟨⟨k, hk⟩, hlast⟩ := hends
  refine ⟨⟨k, h.hops ha hk⟩, ?_⟩
  rintro ⟨n, hn, rfl⟩
  have hself : a.Reaches (.identifier n) n := .here .identifier (hb n hn)
  have hreach : a.Reaches e n := (hk.reaches_iff ha).mpr (Or.inl hself)
  exact hlast ⟨n, (h.mem_keys_iff hreach).mp hn, rfl⟩

theorem resolve_eq (h : AgreeOn a b e) (ha : a.DefinesNoBuiltin) (hb : b.DefinesNoBuiltin)
    (he : ¬ a.ChainEndless e) : b.resolve e = a.resolve e := by
  obtain ⟨last, hends⟩ := exists_chainEnds_of_not_chainEndless he
  rw [resolve_of_chainEnds hends, resolve_of_chainEnds (h.chainEnds ha hb hends)]

end AgreeOn

variable {a : Adapter} {e : TypeExpr} {d : String}

theorem agreeOn_setDefinition (h : ¬ a.Reaches e d) (m : TypeExpr) :
    AgreeOn a (a.setDefinition d m) e where
  definitions n hn := by
    have hne : n ≠ d := fun heq => h (heq ▸ hn)
    exact a.definitions.get?_insert_of_ne m hne
  imports _ _ := rfl

theorem DefinesNoBuiltin.setDefinition (ha : a.DefinesNoBuiltin)
    (hd : TypeExpr.isBuiltin d = false) (m : TypeExpr) :
    (a.setDefinition d m).DefinesNoBuiltin := by
  intro n hn
  rcases Registry.mem_keys_insert.mp hn with rfl | hn
  · exact hd
  · exact ha n hn

theorem not_chainEndless_of_validate_eq_ok (h : a.validate = .ok ()) : ¬ a.ChainEndless e := by
  intro hendless
  obtain ⟨f, hf⟩ := hendless 1
  obtain ⟨n, _, rfl⟩ := hf.isAlias
  cases a.validate_eq_iff.mp h with
  | valid _ _ he => exact he n (chainEndless_identifier_iff.mp hendless)

/-- Nothing that is asked about an expression changes when a definition is set that the
expression does not need. -/
theorem setDefinition_frame (hv : a.validate = .ok ()) (ha : a.DefinesNoBuiltin)
    (hd : TypeExpr.isBuiltin d = false) (hn : ¬ (a.dependencies e).Lists d) (m : TypeExpr) :
    (a.setDefinition d m).dependencies e = a.dependencies e ∧
      (a.setDefinition d m).resolve e = a.resolve e := by
  rw [(a.dependencies_placed_and_lists e).2 d] at hn
  have hagree := agreeOn_setDefinition hn m
  exact ⟨hagree.dependencies_eq,
    hagree.resolve_eq ha (ha.setDefinition hd m) (not_chainEndless_of_validate_eq_ok hv)⟩

/-- In a valid adapter that defines no builtin, setting a definition leaves the dependencies
and the result of resolving of every expression as they are that does not depend on the name.
The columns whose types do not depend on it keep their types too. -/
theorem override_affects_only_dependents (a : Adapter) (hv : a.validate = .ok ())
    (ha : a.DefinesNoBuiltin) (d : String) (hd : TypeExpr.isBuiltin d = false) (m : TypeExpr) :
    (∀ e, ¬ (a.dependencies e).Lists d →
      (a.setDefinition d m).dependencies e = a.dependencies e ∧
        (a.setDefinition d m).resolve e = a.resolve e) ∧
    ∀ native, ¬ (a.dependencies (a.scalarFor native)).Lists d →
      (a.setDefinition d m).scalarFor native = a.scalarFor native ∧
        (a.setDefinition d m).dependencies ((a.setDefinition d m).scalarFor native) =
          a.dependencies (a.scalarFor native) ∧
        (a.setDefinition d m).resolve ((a.setDefinition d m).scalarFor native) =
          a.resolve (a.scalarFor native) := by
  constructor
  · intro e hn
    exact setDefinition_frame hv ha hd hn m
  · intro native hn
    exact ⟨rfl, setDefinition_frame hv ha hd hn m⟩

/-- Two aliases in a row beside a definition to which neither leads. -/
def serialColumns : Adapter :=
  ofChanges .postgresql
    [.definition "Id" (.identifier "Serial"), .definition "Serial" (.identifier "number"),
      .definition "Label" (.identifier "string"), .scalar "int8" (.identifier "Id")]

theorem validate_serialColumns : serialColumns.validate = .ok () := by decide +kernel

/-- A definition is replaced by an alias of itself, or one that refers to an unknown name is
added. The column that leads to neither keeps its type, what it needs and what it stands for. -/
theorem serialColumns_override :
    serialColumns.validate = .ok () ∧ serialColumns.DefinesNoBuiltin ∧
    TypeExpr.isBuiltin "Label" = false ∧ TypeExpr.isBuiltin "Code" = false ∧
    ¬ (serialColumns.dependencies (.identifier "Id")).Lists "Label" ∧
    (serialColumns.setDefinition "Label" (.identifier "Label")).dependencies (.identifier "Id") =
      serialColumns.dependencies (.identifier "Id") ∧
    (serialColumns.setDefinition "Label" (.identifier "Label")).resolve (.identifier "Id") =
      .identifier "number" ∧
    ¬ (serialColumns.dependencies (serialColumns.scalarFor "int8")).Lists "Code" ∧
    (serialColumns.setDefinition "Code" (.array (.identifier "Missing"))).resolve
        ((serialColumns.setDefinition "Code" (.array (.identifier "Missing"))).scalarFor "int8") =
      .identifier "number" := by
  have hbuiltin : serialColumns.DefinesNoBuiltin := by decide
  have hscalar : serialColumns.scalarFor "int8" = .identifier "Id" := by decide
  have hnumber : serialColumns.resolve (.identifier "Id") = .identifier "number" := by decide
  have hlabel : ¬ (serialColumns.dependencies (.identifier "Id")).Lists "Label" := by
    decide +kernel
  have hcode : ¬ (serialColumns.dependencies (serialColumns.scalarFor "int8")).Lists "Code" := by
    decide +kernel
  obtain ⟨hreplaced, _⟩ := override_affects_only_dependents serialColumns validate_serialColumns
    hbuiltin "Label" (by decide) (.identifier "Label")
  obtain ⟨_, hadded⟩ := override_affects_only_dependents serialColumns validate_serialColumns
    hbuiltin "Code" (by decide) (.array (.identifier "Missing"))
  obtain ⟨hdependencies, hresolve⟩ := hreplaced _ hlabel
  obtain ⟨_, _, hcolumn⟩ := hadded "int8" hcode
  exact ⟨validate_serialColumns, hbuiltin, by decide, by decide, hlabel, hdependencies,
    hresolve.trans hnumber, hcode, hcolumn.trans (hscalar ▸ hnumber)⟩

end Adapter

end DialectTypes
