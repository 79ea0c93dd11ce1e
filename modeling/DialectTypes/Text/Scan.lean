/-!
# Taking values from the start of a text

A scan takes a value from the start of a text and returns it with the rest, or
nothing if the text does not start that way. The lemmas say that what is left
is not longer than the text.
-/

namespace DialectTypes

namespace Text

abbrev Scan (α : Type) := List Char → Option (α × List Char)

variable {α : Type}

/-- A value in front of those that are taken from the rest of a text. -/
def before (a : Option α) (scanned : Option (List α × List Char)) :
    Option (List α × List Char) := do
  let (as, rest) ← scanned
  return ((← a) :: as, rest)

theorem before_eq_some {a : Option α} {scanned : Option (List α × List Char)} {as : List α}
    {rest : List Char} (h : before a scanned = some (as, rest)) :
    ∃ tail, scanned = some (tail, rest) := by
  cases scanned with
  | none => cases h
  | some p =>
    cases a with
    | none => cases h
    | some a =>
      cases h
      exact ⟨_, rfl⟩

/-- The characters from the start of a text that satisfy a condition, if there
is one, and the rest. -/
def takeSome (p : Char → Bool) : Scan (List Char) := fun text =>
  if (text.takeWhile p).isEmpty then none else some (text.takeWhile p, text.dropWhile p)

theorem length_takeSome {p : Char → Bool} {text taken rest : List Char}
    (h : takeSome p text = some (taken, rest)) : rest.length < text.length := by
  unfold takeSome at h
  split at h
  · cases h
  · next hne =>
    simp only [Option.some.injEq, Prod.mk.injEq] at h
    have hs := congrArg List.length (List.takeWhile_append_dropWhile (p := p) (l := text))
    have hp : 0 < (text.takeWhile p).length := List.length_pos_iff.2 (by simpa using hne)
    rw [List.length_append] at hs
    rw [← h.2]
    omega

/-- The value of a hexadecimal digit of either case. -/
def hexValue? (c : Char) : Option Nat :=
  if '0' ≤ c ∧ c ≤ '9' then some (c.toNat - '0'.toNat)
  else if 'a' ≤ c ∧ c ≤ 'f' then some (c.toNat - 'a'.toNat + 10)
  else if 'A' ≤ c ∧ c ≤ 'F' then some (c.toNat - 'A'.toNat + 10)
  else none

/-- The number that hexadecimal digits denote. -/
def hexNumber? (digits : List Char) : Option Nat :=
  digits.foldlM (fun n c => do return n * 16 + (← hexValue? c)) 0

end Text

end DialectTypes
