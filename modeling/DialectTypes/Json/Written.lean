import DialectTypes.Json.Document
import DialectTypes.Json.Value

/-!
# Reading what is written

Every written value has a document and a list of tokens of its own. The text of
a value consists of exactly these tokens, whatever follows it, and taking them
ends where a complete value has been taken. So the text is read as the document,
at any depth of nesting.
-/

namespace DialectTypes

namespace Json

open Text

namespace Value

mutual

/-- What is found in the text of a value. -/
def document : Value → Document
  | bool b => .bool b
  | string s => .string (some s)
  | array vs => .array (itemDocuments vs) true
  | object ms => .object (memberDocuments ms) true

def itemDocuments : List Value → List Document
  | [] => []
  | v :: vs => document v :: itemDocuments vs

def memberDocuments : List (String × Value) → List (Option String × Document)
  | [] => []
  | (k, v) :: ms => (some k, document v) :: memberDocuments ms

end

mutual

/-- The tokens in the text of a value. -/
def tokens : Value → List Token
  | bool b => [.bool b]
  | string s => [.string (some s)]
  | array [] => [.openArray, .closeArray]
  | array (v :: vs) => .openArray :: (tokens v ++ itemTokens vs)
  | object [] => [.openObject, .closeObject]
  | object ((k, v) :: ms) =>
    .openObject :: .string (some k) :: .colon :: (tokens v ++ memberTokens ms)

/-- The tokens in the rest of an array after an item. -/
def itemTokens : List Value → List Token
  | [] => [.closeArray]
  | v :: vs => .comma :: (tokens v ++ itemTokens vs)

/-- The tokens in the rest of an object after a member. -/
def memberTokens : List (String × Value) → List Token
  | [] => [.closeObject]
  | (k, v) :: ms => .comma :: .string (some k) :: .colon :: (tokens v ++ memberTokens ms)

end

theorem itemDocuments_eq (vs : List Value) : itemDocuments vs = vs.map document := by
  induction vs with
  | nil => rfl
  | cons v vs ih => simp [itemDocuments, ih]

theorem memberDocuments_eq (ms : List (String × Value)) :
    memberDocuments ms = ms.map fun m => (some m.1, m.2.document) := by
  induction ms with
  | nil => rfl
  | cons m ms ih => simp [memberDocuments, ih]

end Value

/-- The piece that is read where a character is written. -/
def piece (c : Char) : Piece :=
  if c.toNat < 0x20 ∧ c ≠ '\x08' ∧ c ≠ '\t' ∧ c ≠ '\n' ∧ c ≠ '\x0c' ∧ c ≠ '\r' then .unit c.toNat
  else .char c

theorem hexNumber_hexDigit {n : Nat} (h : n < 0x20) :
    hexNumber? ['0', '0', hexDigit (n / 16), hexDigit (n % 16)] = some n := by
  revert n
  decide

/-- The text of a character is read as one piece. -/
theorem scanString_escape (c : Char) (rest : List Char) :
    scanString (escape c ++ rest) = before (some (piece c)) (scanString rest) := by
  by_cases h₁ : c = '"'
  · subst h₁; rfl
  by_cases h₂ : c = '\\'
  · subst h₂; rfl
  by_cases h₃ : c = '\x08'
  · subst h₃; rfl
  by_cases h₄ : c = '\t'
  · subst h₄; rfl
  by_cases h₅ : c = '\n'
  · subst h₅; rfl
  by_cases h₆ : c = '\x0c'
  · subst h₆; rfl
  by_cases h₇ : c = '\r'
  · subst h₇; rfl
  by_cases h₈ : c.toNat < 0x20
  · simp only [escape, piece, h₁, h₂, h₃, h₄, h₅, h₆, h₇, h₈, if_true, if_false, List.cons_append,
      List.nil_append, ne_eq, not_false_eq_true, and_true]
    rw [scanString, hexNumber_hexDigit h₈]
    rfl
  · simp only [escape, piece, h₁, h₂, h₃, h₄, h₅, h₆, h₇, h₈, if_false, List.cons_append,
      List.nil_append, false_and]
    rw [scanString]
    · simp [h₂, h₈]
    all_goals simp_all

theorem scanString_flatMap_escape (cs rest : List Char) :
    scanString (cs.flatMap escape ++ '"' :: rest) = some (cs.map piece, rest) := by
  induction cs with
  | nil => rfl
  | cons c cs ih =>
    rw [List.flatMap_cons, List.append_assoc, scanString_escape, ih]
    rfl

theorem joinPieces_cons_piece (c : Char) (ps : List Piece) :
    joinPieces (piece c :: ps) = (c :: ·) <$> joinPieces ps := by
  unfold piece
  split
  · next h =>
    have hc : Char.ofNat c.toNat = c := Char.ofNat_toNat c
    have hh : isHigh c.toNat = false := by simp [isHigh]; omega
    have hl : isLow c.toNat = false := by simp [isLow]; omega
    cases ps with
    | nil => simp [joinPieces, hh, hl, hc]
    | cons p ps => cases p <;> simp [joinPieces, hh, hl, hc]
  · simp [joinPieces]

theorem joinPieces_map_piece (cs : List Char) : joinPieces (cs.map piece) = some cs := by
  induction cs with
  | nil => rfl
  | cons c cs ih => rw [List.map_cons, joinPieces_cons_piece, ih]; rfl

/-- A token that is taken from the start of a text is the first token. -/
theorem lex_cons {c : Char} {rest after : List Char} {t : Token} (hb : isBlank c = false)
    (h : scanToken c rest = (t, after)) (ht : t ≠ .bad) : lex (c :: rest) = t :: lex after := by
  rw [lex, hb]
  simp only [Bool.false_eq_true, if_false]
  split
  · next h' => simp_all
  · next h' => simp_all

theorem lex_quote (s : String) (rest : List Char) :
    lex (quote s ++ rest) = .string (some s) :: lex rest := by
  rw [quote, List.cons_append, List.append_assoc, List.singleton_append]
  refine lex_cons (by decide) ?_ (by simp)
  simp only [scanToken, Char.reduceEq, if_false, if_true, scanString_flatMap_escape,
    joinPieces_map_piece]
  simp

theorem lex_comma (rest : List Char) : lex (',' :: rest) = .comma :: lex rest :=
  lex_cons (by decide) rfl (by simp)

theorem lex_colon (rest : List Char) : lex (':' :: rest) = .colon :: lex rest :=
  lex_cons (by decide) rfl (by simp)

theorem lex_openArray (rest : List Char) : lex ('[' :: rest) = .openArray :: lex rest :=
  lex_cons (by decide) rfl (by simp)

theorem lex_closeArray (rest : List Char) : lex (']' :: rest) = .closeArray :: lex rest :=
  lex_cons (by decide) rfl (by simp)

theorem lex_openObject (rest : List Char) : lex ('{' :: rest) = .openObject :: lex rest :=
  lex_cons (by decide) rfl (by simp)

theorem lex_closeObject (rest : List Char) : lex ('}' :: rest) = .closeObject :: lex rest :=
  lex_cons (by decide) rfl (by simp)

theorem lex_true (rest : List Char) :
    lex ('t' :: 'r' :: 'u' :: 'e' :: rest) = .bool true :: lex rest :=
  lex_cons (by decide) (by simp [scanToken, scanWord]) (by simp)

theorem lex_false (rest : List Char) :
    lex ('f' :: 'a' :: 'l' :: 's' :: 'e' :: rest) = .bool false :: lex rest :=
  lex_cons (by decide) (by simp [scanToken, scanWord]) (by simp)

namespace Value

mutual

theorem lex_chars : ∀ (v : Value) (rest : List Char), lex (v.chars ++ rest) = v.tokens ++ lex rest
  | bool true, rest => lex_true rest
  | bool false, rest => lex_false rest
  | string s, rest => lex_quote s rest
  | array [], rest => by simp [chars, tokens, lex_openArray, lex_closeArray]
  | array (v :: vs), rest => by
    simp [chars, tokens, lex_openArray, lex_chars v, lex_itemChars vs]
  | object [], rest => by simp [chars, tokens, lex_openObject, lex_closeObject]
  | object ((k, v) :: ms), rest => by
    simp [chars, tokens, lex_openObject, lex_quote, lex_colon, lex_chars v, lex_memberChars ms]

theorem lex_itemChars : ∀ (vs : List Value) (rest : List Char),
    lex (itemChars vs ++ rest) = itemTokens vs ++ lex rest
  | [], rest => lex_closeArray rest
  | v :: vs, rest => by
    simp [itemChars, itemTokens, lex_comma, lex_chars v, lex_itemChars vs]

theorem lex_memberChars : ∀ (ms : List (String × Value)) (rest : List Char),
    lex (memberChars ms ++ rest) = memberTokens ms ++ lex rest
  | [], rest => lex_closeObject rest
  | (k, v) :: ms, rest => by
    simp [memberChars, memberTokens, lex_comma, lex_quote, lex_colon, lex_chars v,
      lex_memberChars ms]

end

open State

/-- An array may start with any value. -/
theorem run_firstItem (v : Value) (outer : List Frame) (ts : List Token) :
    (firstItem outer).run (v.tokens ++ ts) = (value (.array [] :: outer)).run (v.tokens ++ ts) := by
  cases v with
  | bool b => rfl
  | string s => rfl
  | array vs => cases vs <;> rfl
  | object ms => cases ms <;> rfl

mutual

theorem run_tokens : ∀ (v : Value) (outer : List Frame) (ts : List Token),
    (State.value outer).run (v.tokens ++ ts) = (resume v.document outer).run ts
  | bool _, _, _ | string _, _, _ | array [], _, _ | object [], _, _ => rfl
  | array (v :: vs), outer, ts => by
    rw [tokens, List.cons_append, List.append_assoc]
    exact (run_firstItem v outer _).trans
      ((run_tokens v _ _).trans (run_itemTokens vs [v.document] outer ts))
  | object ((k, v) :: ms), outer, ts => by
    rw [tokens, List.cons_append, List.cons_append, List.cons_append, List.append_assoc]
    exact (run_tokens v (.object [] (some k) :: outer) _).trans
      (run_memberTokens ms [(some k, v.document)] outer ts)

theorem run_itemTokens : ∀ (vs : List Value) (before : List Document) (outer : List Frame)
    (ts : List Token), (afterItem before outer).run (itemTokens vs ++ ts) =
      (resume (.array (before.reverse ++ itemDocuments vs) true) outer).run ts
  | [], before, outer, ts => by simp [itemTokens, State.run, step?, itemDocuments]
  | v :: vs, before, outer, ts => by
    simp [itemTokens, State.run, step?, itemDocuments, run_tokens v, resume, run_itemTokens vs]

theorem run_memberTokens : ∀ (ms : List (String × Value))
    (before : List (Option String × Document)) (outer : List Frame) (ts : List Token),
    (afterMember before outer).run (memberTokens ms ++ ts) =
      (resume (.object (before.reverse ++ memberDocuments ms) true) outer).run ts
  | [], before, outer, ts => by simp [memberTokens, State.run, step?, memberDocuments]
  | (k, v) :: ms, before, outer, ts => by
    simp [memberTokens, State.run, step?, memberDocuments, run_tokens v, resume,
      run_memberTokens ms]

end

/-- The text of a value is read as the value and has nothing after it. -/
theorem source_text (v : Value) : Json.source v.text = ⟨v.document, true⟩ := by
  have := run_tokens v [] []
  have hl := lex_chars v []
  have he : lex [] = [] := by rw [lex]
  simp only [List.append_nil, he] at hl this
  simp [Json.source, Value.text, hl, this, resume, State.run, stop]

end Value

end Json

end DialectTypes
