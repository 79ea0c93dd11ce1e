import DialectTypes.Json.Number

/-!
# The tokens of a JSON text

Blanks separate tokens and mean nothing else. A token that is not well formed
ends the list with `bad`, since nothing after it can be told apart.
-/

namespace DialectTypes

namespace Json

open Text

inductive Token where
  | null
  | bool (value : Bool)
  | number (value : Option Number)
  | string (value : Option String)
  | openArray
  | closeArray
  | openObject
  | closeObject
  | comma
  | colon
  | bad

def isBlank (c : Char) : Bool :=
  c = ' ' || c = '\n' || c = '\t' || c = '\r'

/-- The character that an escape of one letter denotes. -/
def escaped? : Char → Option Char
  | '"' => some '"'
  | '\\' => some '\\'
  | '/' => some '/'
  | 'b' => some '\x08'
  | 'f' => some '\x0c'
  | 'n' => some '\n'
  | 'r' => some '\r'
  | 't' => some '\t'
  | _ => none

/-- What a string is made of: characters and escaped units of 16 bits. -/
inductive Piece where
  | char (c : Char)
  | unit (n : Nat)

/-- The pieces of a string up to its closing quote, and what follows it. -/
def scanString : Scan (List Piece)
  | [] => none
  | '"' :: rest => some ([], rest)
  | '\\' :: 'u' :: a :: b :: c :: d :: rest =>
    before (.unit <$> hexNumber? [a, b, c, d]) (scanString rest)
  | '\\' :: c :: rest => before (.char <$> escaped? c) (scanString rest)
  | c :: rest =>
    if c.toNat < 0x20 ∨ c = '\\' then none else before (some (.char c)) (scanString rest)

/-- Whether a unit is the first half of a pair. -/
def isHigh (n : Nat) : Bool := 0xD800 ≤ n && n < 0xDC00

/-- Whether a unit is the second half of a pair. -/
def isLow (n : Nat) : Bool := 0xDC00 ≤ n && n < 0xE000

/-- The characters that pieces denote; a half that is not part of a pair denotes none. -/
def joinPieces : List Piece → Option (List Char)
  | [] => some []
  | .char c :: ps => (c :: ·) <$> joinPieces ps
  | .unit high :: .unit low :: ps =>
    if isHigh high then
      if isLow low then
        (Char.ofNat (0x10000 + (high - 0xD800) * 0x400 + (low - 0xDC00)) :: ·) <$> joinPieces ps
      else none
    else if isLow high then none
    else (Char.ofNat high :: ·) <$> joinPieces (.unit low :: ps)
  | .unit n :: ps =>
    if isHigh n || isLow n then none else (Char.ofNat n :: ·) <$> joinPieces ps

/-- A token that is spelled by a word, whose first character is passed already. -/
def scanWord (token : Token) (word text : List Char) : Token × List Char :=
  if word.isPrefixOf text then (token, text.drop word.length) else (.bad, [])

/-- The token that starts with a character, and what follows it. -/
def scanToken (c : Char) (rest : List Char) : Token × List Char :=
  if c = '[' then (.openArray, rest)
  else if c = ']' then (.closeArray, rest)
  else if c = '{' then (.openObject, rest)
  else if c = '}' then (.closeObject, rest)
  else if c = ',' then (.comma, rest)
  else if c = ':' then (.colon, rest)
  else if c = 'n' then scanWord .null ['u', 'l', 'l'] rest
  else if c = 't' then scanWord (.bool true) ['r', 'u', 'e'] rest
  else if c = 'f' then scanWord (.bool false) ['a', 'l', 's', 'e'] rest
  else if c = '"' then
    match scanString rest with
    | some (pieces, rest) => (.string (String.ofList <$> joinPieces pieces), rest)
    | none => (.bad, [])
  else
    match scanNumber (c :: rest) with
    | some (n, rest) => (.number n.number?, rest)
    | none => (.bad, [])

theorem length_scanString {text : List Char} {ps : List Piece} {rest : List Char}
    (h : scanString text = some (ps, rest)) : rest.length < text.length := by
  fun_induction scanString text generalizing ps with
  | case1 => cases h
  | case2 after => cases h; exact Nat.lt_succ_self _
  | case3 a b c d after ih =>
    obtain ⟨_, h⟩ := before_eq_some h
    have := ih h
    simp only [List.length_cons]
    omega
  | case4 c after _ ih =>
    obtain ⟨_, h⟩ := before_eq_some h
    have := ih h
    simp only [List.length_cons]
    omega
  | case5 => cases h
  | case6 c after _ _ _ _ ih =>
    obtain ⟨_, h⟩ := before_eq_some h
    exact Nat.lt_succ_of_lt (ih h)

theorem length_scanWord_le (token : Token) (word text : List Char) :
    (scanWord token word text).2.length ≤ text.length := by
  unfold scanWord
  split <;> simp

private theorem length_ite_le {p : Prop} [Decidable p] {a b : Token × List Char} {n : Nat}
    (ha : a.2.length ≤ n) (hb : b.2.length ≤ n) : (if p then a else b).2.length ≤ n := by
  split <;> assumption

theorem length_scanToken_le (c : Char) (rest : List Char) :
    (scanToken c rest).2.length ≤ rest.length := by
  unfold scanToken
  iterate 6 apply length_ite_le (Nat.le_refl _)
  iterate 3 apply length_ite_le (length_scanWord_le _ _ _)
  apply length_ite_le
  · cases h : scanString rest with
    | none => exact Nat.zero_le _
    | some p => exact Nat.le_of_lt (length_scanString h)
  · cases h : scanNumber (c :: rest) with
    | none => exact Nat.zero_le _
    | some p => exact Nat.le_of_lt_succ (length_scanNumber h)

/-- The tokens of a text. -/
def lex : List Char → List Token
  | [] => []
  | c :: rest =>
    if isBlank c then lex rest
    else
      match _h : scanToken c rest with
      | (.bad, _) => [.bad]
      | (token, after) => token :: lex after
termination_by text => text.length
decreasing_by
  · exact Nat.lt_succ_self _
  · exact Nat.lt_succ_of_le (_h ▸ length_scanToken_le c rest :)

end Json

end DialectTypes
