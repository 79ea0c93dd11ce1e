import DialectTypes.Proofs.JsonText

/-!
# How deep a text nests

The nesting of a text is the greatest number of arrays and objects that are open
at one place, counted in its tokens, so brackets within strings do not count. A
text nests as deep as the document that it denotes, and that can be read where
there is room for its nesting, unless a scalar in it has no value. The text of a
value nests as deep as the value.
-/

namespace DialectTypes

namespace Json

/-- The greatest number of open arrays and objects, where some are open already. -/
def deepest : List Token → Nat → Nat
  | [], depth => depth
  | .openArray :: ts, depth | .openObject :: ts, depth => deepest ts (depth + 1)
  | .closeArray :: ts, depth | .closeObject :: ts, depth => max depth (deepest ts (depth - 1))
  | _ :: ts, depth => deepest ts depth

/-- The greatest number of arrays and objects within one another in a text. -/
def nesting (text : String) : Nat :=
  deepest (lex text.toList) 0

theorem le_deepest (ts : List Token) (depth : Nat) : depth ≤ deepest ts depth := by
  induction ts generalizing depth with
  | nil => exact Nat.le_refl _
  | cons t ts ih =>
      have hhere := ih depth
      have hbelow := ih (depth + 1)
      cases t <;> simp only [deepest] <;> omega

end Json

namespace Document

open Json (Token deepest le_deepest)

mutual

/-- The greatest number of sequences and tables within one another in a document. -/
def nesting : Document → Nat
  | null | bool _ | number _ | string _ | broken => 0
  | array ds _ => itemNesting ds + 1
  | object ms _ => memberNesting ms + 1

def itemNesting : List Document → Nat
  | [] => 0
  | d :: ds => max (nesting d) (itemNesting ds)

def memberNesting : List (Option String × Document) → Nat
  | [] => 0
  | (_, d) :: ms => max (nesting d) (memberNesting ms)

end

theorem nesting_le_itemNesting {d : Document} {ds : List Document} (h : d ∈ ds) :
    d.nesting ≤ itemNesting ds := by
  induction ds with
  | nil => exact absurd h List.not_mem_nil
  | cons e ds ih =>
      rw [itemNesting]
      rcases List.mem_cons.mp h with rfl | h
      · exact Nat.le_max_left _ _
      · exact Nat.le_trans (ih h) (Nat.le_max_right _ _)

theorem nesting_le_memberNesting {m : Option String × Document}
    {ms : List (Option String × Document)} (h : m ∈ ms) : m.2.nesting ≤ memberNesting ms := by
  induction ms with
  | nil => exact absurd h List.not_mem_nil
  | cons n ms ih =>
      obtain ⟨k, d⟩ := n
      rw [memberNesting]
      rcases List.mem_cons.mp h with rfl | h
      · exact Nat.le_max_left _ _
      · exact Nat.le_trans (ih h) (Nat.le_max_right _ _)

mutual

/-- The tokens of a document open as many parts as it nests, and close them all. -/
theorem deepest_tokens : ∀ (d : Document) (ts : List Token) (depth : Nat),
    deepest (d.tokens ++ ts) depth = max (depth + d.nesting) (deepest ts depth)
  | null, ts, depth | bool _, ts, depth | number _, ts, depth | string _, ts, depth
  | broken, ts, depth => by
      have := le_deepest ts depth
      simp only [tokens, nesting, List.cons_append, List.nil_append, deepest]
      omega
  | array [] _, ts, depth | object [] _, ts, depth => by
      simp [tokens, nesting, itemNesting, memberNesting, deepest]
  | array (d :: ds) _, ts, depth => by
      have := deepest_itemTokens ds ts depth
      simp only [tokens, nesting, itemNesting, List.cons_append, List.append_assoc, deepest,
        deepest_tokens d]
      omega
  | object ((k, d) :: ms) _, ts, depth => by
      have := deepest_memberTokens ms ts depth
      simp only [tokens, nesting, memberNesting, List.cons_append, List.append_assoc, deepest,
        deepest_tokens d]
      omega

theorem deepest_itemTokens : ∀ (ds : List Document) (ts : List Token) (depth : Nat),
    deepest (itemTokens ds ++ ts) (depth + 1) =
      max (depth + 1 + itemNesting ds) (deepest ts depth)
  | [], ts, depth => by simp [itemTokens, itemNesting, deepest]
  | d :: ds, ts, depth => by
      have := deepest_itemTokens ds ts depth
      simp only [itemTokens, itemNesting, List.cons_append, List.append_assoc, deepest,
        deepest_tokens d]
      omega

theorem deepest_memberTokens : ∀ (ms : List (Option String × Document)) (ts : List Token)
    (depth : Nat),
    deepest (memberTokens ms ++ ts) (depth + 1) =
      max (depth + 1 + memberNesting ms) (deepest ts depth)
  | [], ts, depth => by simp [memberTokens, memberNesting, deepest]
  | (k, d) :: ms, ts, depth => by
      have := deepest_memberTokens ms ts depth
      simp only [memberTokens, memberNesting, List.cons_append, List.append_assoc, deepest,
        deepest_tokens d]
      omega

end

mutual

/-- A document that is readable somewhere is readable where there is room for its nesting. -/
theorem readable_of_nesting_le : ∀ (d : Document) {room least : Nat},
    d.readable room = true → d.nesting ≤ least → d.readable least = true
  | null, _, _, _, _ | bool _, _, _, _, _ => rfl
  | number _, _, _, h, _ | string _, _, _, h, _ => h
  | array ds _, room + 1, least + 1, h, hn => by
      simp only [readable, Bool.and_eq_true] at h ⊢
      exact ⟨h.1, readableItems_of_nesting_le ds h.2 (Nat.le_of_succ_le_succ hn)⟩
  | object ms _, room + 1, least + 1, h, hn => by
      simp only [readable, Bool.and_eq_true] at h ⊢
      exact ⟨h.1, readableMembers_of_nesting_le ms h.2 (Nat.le_of_succ_le_succ hn)⟩

theorem readableItems_of_nesting_le : ∀ (ds : List Document) {room least : Nat},
    readableItems room ds = true → itemNesting ds ≤ least → readableItems least ds = true
  | [], _, _, _, _ => rfl
  | d :: ds, _, _, h, hn => by
      simp only [readableItems, Bool.and_eq_true] at h ⊢
      rw [itemNesting, Nat.max_le] at hn
      exact ⟨readable_of_nesting_le d h.1 hn.1, readableItems_of_nesting_le ds h.2 hn.2⟩

theorem readableMembers_of_nesting_le : ∀ (ms : List (Option String × Document))
    {room least : Nat}, readableMembers room ms = true → memberNesting ms ≤ least →
    readableMembers least ms = true
  | [], _, _, _, _ => rfl
  | (_, d) :: ms, _, _, h, hn => by
      simp only [readableMembers, Bool.and_eq_true] at h ⊢
      rw [memberNesting, Nat.max_le] at hn
      exact ⟨⟨h.1.1, readable_of_nesting_le d h.1.2 hn.1⟩,
        readableMembers_of_nesting_le ms h.2 hn.2⟩

end

end Document

namespace Json

/-- A text nests as deep as the document that it denotes. -/
theorem nesting_of_denotes {text : String} {d : Document} (h : Denotes text d) :
    nesting text = d.nesting := by
  have hdeep := d.deepest_tokens [] 0
  rw [List.append_nil] at hdeep
  rw [nesting, lex_of_denotes h, hdeep]
  simp [deepest]

namespace Value

mutual

/-- The greatest number of arrays and objects within one another in a value. -/
def nesting : Value → Nat
  | bool _ => 0
  | string _ => 0
  | array vs => itemNesting vs + 1
  | object ms => memberNesting ms + 1

def itemNesting : List Value → Nat
  | [] => 0
  | v :: vs => max (nesting v) (itemNesting vs)

def memberNesting : List (String × Value) → Nat
  | [] => 0
  | (_, v) :: ms => max (nesting v) (memberNesting ms)

end

theorem nesting_le_itemNesting {v : Value} {vs : List Value} (h : v ∈ vs) :
    v.nesting ≤ itemNesting vs := by
  induction vs with
  | nil => exact absurd h List.not_mem_nil
  | cons w vs ih =>
      rw [itemNesting]
      rcases List.mem_cons.mp h with rfl | h
      · exact Nat.le_max_left _ _
      · exact Nat.le_trans (ih h) (Nat.le_max_right _ _)

theorem nesting_le_memberNesting {m : String × Value} {ms : List (String × Value)} (h : m ∈ ms) :
    m.2.nesting ≤ memberNesting ms := by
  induction ms with
  | nil => exact absurd h List.not_mem_nil
  | cons n ms ih =>
      obtain ⟨k, v⟩ := n
      rw [memberNesting]
      rcases List.mem_cons.mp h with rfl | h
      · exact Nat.le_max_left _ _
      · exact Nat.le_trans (ih h) (Nat.le_max_right _ _)

mutual

@[simp] theorem intact_document : ∀ v : Value, v.document.intact = true
  | bool _ | string _ => rfl
  | array vs => by simp [document, Document.intact, intact_itemDocuments vs]
  | object ms => by simp [document, Document.intact, intact_memberDocuments ms]

theorem intact_itemDocuments : ∀ vs : List Value,
    Document.intactItems (itemDocuments vs) = true
  | [] => rfl
  | v :: vs => by
      simp [itemDocuments, Document.intactItems, intact_document v, intact_itemDocuments vs]

theorem intact_memberDocuments : ∀ ms : List (String × Value),
    Document.intactMembers (memberDocuments ms) = true
  | [] => rfl
  | (k, v) :: ms => by
      simp [memberDocuments, Document.intactMembers, intact_document v,
        intact_memberDocuments ms]

end

mutual

/-- A value nests as deep as its document. -/
theorem nesting_document : ∀ v : Value, v.document.nesting = v.nesting
  | bool _ | string _ => rfl
  | array vs => congrArg (· + 1) (nesting_itemDocuments vs)
  | object ms => congrArg (· + 1) (nesting_memberDocuments ms)

theorem nesting_itemDocuments : ∀ vs : List Value,
    Document.itemNesting (itemDocuments vs) = itemNesting vs
  | [] => rfl
  | v :: vs => by
      rw [itemDocuments, Document.itemNesting, itemNesting, nesting_document v,
        nesting_itemDocuments vs]

theorem nesting_memberDocuments : ∀ ms : List (String × Value),
    Document.memberNesting (memberDocuments ms) = memberNesting ms
  | [] => rfl
  | (k, v) :: ms => by
      rw [memberDocuments, Document.memberNesting, memberNesting, nesting_document v,
        nesting_memberDocuments ms]

end

theorem denotes_text (v : Value) : Denotes v.text v.document :=
  denotes_of_source (source_text v) (intact_document v)

/-- The text of a value nests as deep as the value. -/
theorem nesting_text (v : Value) : Json.nesting v.text = v.nesting := by
  rw [nesting_of_denotes (denotes_text v), nesting_document]

/-- A bracket within a string opens nothing. -/
example : Json.nesting (Value.object [("items", .array [.string "[["])]).text = 2 := by
  rw [nesting_text]
  rfl

mutual

/-- The document of a value is readable exactly where there is room for its nesting. -/
theorem readable_document : ∀ (v : Value) (room : Nat),
    v.document.readable room = true ↔ v.nesting ≤ room
  | bool _, room | string _, room => by simp [document, Document.readable, nesting]
  | array vs, 0 => by simp [document, Document.readable, nesting]
  | array vs, room + 1 => by
      simp [document, Document.readable, nesting, readable_itemDocuments vs]
  | object ms, 0 => by simp [document, Document.readable, nesting]
  | object ms, room + 1 => by
      simp [document, Document.readable, nesting, readable_memberDocuments ms]

theorem readable_itemDocuments : ∀ (vs : List Value) (room : Nat),
    Document.readableItems room (itemDocuments vs) = true ↔ itemNesting vs ≤ room
  | [], room => by simp [itemDocuments, Document.readableItems, itemNesting]
  | v :: vs, room => by
      simp only [itemDocuments, Document.readableItems, itemNesting, Bool.and_eq_true,
        readable_document v, readable_itemDocuments vs, Nat.max_le]

theorem readable_memberDocuments : ∀ (ms : List (String × Value)) (room : Nat),
    Document.readableMembers room (memberDocuments ms) = true ↔ memberNesting ms ≤ room
  | [], room => by simp [memberDocuments, Document.readableMembers, memberNesting]
  | (k, v) :: ms, room => by
      simp only [memberDocuments, Document.readableMembers, memberNesting, Bool.and_eq_true,
        Option.isSome_some, true_and, readable_document v, readable_memberDocuments ms, Nat.max_le]

end

end Value

end Json

end DialectTypes
