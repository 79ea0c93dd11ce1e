/-!
# Positions at the end of a message

A message about a text may end with a position, as in ` at line 3 column 7`.
The position is split off the message and kept beside it. Both numbers are natural
numbers of 64 bits.
-/

namespace DialectTypes

namespace Text

structure Position where
  line : Nat
  column : Nat
deriving DecidableEq

def Position.shown (p : Position) : String :=
  " at line " ++ toString p.line ++ " column " ++ toString p.column

/-- The end of a message about a place, if the place is known. -/
def shownPlace : Option Position → String
  | some p => p.shown
  | none => ""

/-- The number that digits denote, the last one first. -/
def reverseValue (digits : List Char) : Nat :=
  digits.foldr (fun c n => n * 10 + (c.toNat - '0'.toNat)) 0

/-- The number at the end of a reversed text, and what is before it. -/
def dropNumber? (back : List Char) : Option (Nat × List Char) :=
  let digits := back.takeWhile Char.isDigit
  if digits ≠ [] ∧ reverseValue digits < Nat.pow 2 64 then
    some (reverseValue digits, back.dropWhile Char.isDigit)
  else none

/-- A reversed text without the word at its end. -/
def dropWord? (word back : List Char) : Option (List Char) :=
  if word.reverse.isPrefixOf back then some (back.drop word.length) else none

/-- The position at the end of a reversed text, and what is before it. -/
def dropPosition? (back : List Char) : Option (Position × List Char) := do
  let (column, back) ← dropNumber? back
  let back ← dropWord? " column ".toList back
  let (line, back) ← dropNumber? back
  let back ← dropWord? " at line ".toList back
  return (⟨line, column⟩, back)

/-- A text without the position at its end, and the position, if it ends with one. -/
def splitPosition (s : String) : String × Option Position :=
  match dropPosition? s.toList.reverse with
  | some (position, back) => (String.ofList back.reverse, some position)
  | none => (s, none)

/-- A text that does not end with a digit does not end with a position. -/
theorem splitPosition_eq_self {s : String}
    (h : ∀ c ∈ s.toList.getLast?, c.isDigit = false) : splitPosition s = (s, none) := by
  have hn : dropNumber? s.toList.reverse = none := by
    rw [← List.head?_reverse] at h
    generalize s.toList.reverse = back at h
    cases back with
    | nil => simp [dropNumber?]
    | cons c back => simp [dropNumber?, h c rfl]
  simp [splitPosition, dropPosition?, hn]

/-- The digits denote the natural number, which has 64 bits. -/
structure IsNumeral (digits : List Char) (n : Nat) : Prop where
  nonempty : digits ≠ []
  digit : ∀ c ∈ digits, c.isDigit = true
  value : digits.foldl (fun n c => n * 10 + (c.toNat - '0'.toNat)) 0 = n
  small : n < Nat.pow 2 64

/-- The text gives the position; the numbers may start with zeros. -/
def Position.IsText (p : Position) (s : String) : Prop :=
  ∃ line column, IsNumeral line p.line ∧ IsNumeral column p.column ∧
    s.toList = " at line ".toList ++ line ++ " column ".toList ++ column

/-- A text ends with a number if all of the digits at its end are one. -/
theorem dropNumber?_eq_some_iff {back rest : List Char} {n : Nat} :
    dropNumber? back = some (n, rest) ↔
      ∃ digits, IsNumeral digits n ∧ back = digits.reverse ++ rest ∧
        ∀ c ∈ rest.head?, c.isDigit = false := by
  simp only [dropNumber?]
  constructor
  · intro h
    split at h
    · next hd =>
      obtain ⟨rfl, rfl⟩ := Prod.mk.inj (Option.some.inj h)
      refine ⟨(back.takeWhile Char.isDigit).reverse, ⟨by simpa using hd.1, ?_, ?_, hd.2⟩, ?_, ?_⟩
      · intro c hc
        exact List.all_eq_true.mp List.all_takeWhile c (List.mem_reverse.mp hc)
      · rw [List.foldl_reverse, reverseValue]
      · simp [List.takeWhile_append_dropWhile]
      · intro c hc
        have hhead := List.head?_dropWhile_not Char.isDigit back
        rw [Option.mem_def.mp hc] at hhead
        simpa using hhead
    · cases h
  · rintro ⟨digits, hd, rfl, hrest⟩
    have hdigits : ∀ c ∈ digits.reverse, c.isDigit = true :=
      fun c hc => hd.digit c (List.mem_reverse.mp hc)
    have hnone : rest.takeWhile Char.isDigit = [] ∧ rest.dropWhile Char.isDigit = rest := by
      cases rest with
      | nil => exact ⟨rfl, rfl⟩
      | cons c rest => simp [hrest c rfl]
    have hvalue : reverseValue digits.reverse = n := by
      rw [reverseValue, List.foldr_reverse]
      exact hd.value
    rw [List.takeWhile_append_of_pos hdigits, List.dropWhile_append_of_pos hdigits, hnone.1,
      hnone.2, List.append_nil, hvalue, if_pos ⟨by simpa using hd.nonempty, hd.small⟩]

theorem dropWord?_eq_some_iff {word back rest : List Char} :
    dropWord? word back = some rest ↔ back = word.reverse ++ rest := by
  unfold dropWord?
  constructor
  · intro h
    split at h
    · next hw =>
      obtain ⟨tail, rfl⟩ := List.isPrefixOf_iff_prefix.mp hw
      obtain rfl := Option.some.inj h
      simp
    · cases h
  · rintro rfl
    simp

/-- A text ends with a position in one way at most, as both numbers are preceded by a blank. -/
theorem dropPosition?_eq_some_iff {back rest : List Char} {p : Position} :
    dropPosition? back = some (p, rest) ↔
      ∃ ending, p.IsText ending ∧ back = ending.toList.reverse ++ rest := by
  simp only [dropPosition?, Option.bind_eq_bind, Option.bind_eq_some_iff, Prod.exists,
    dropNumber?_eq_some_iff, dropWord?_eq_some_iff, Option.pure_def, Option.some.injEq,
    Prod.mk.injEq]
  constructor
  · rintro ⟨_, _, ⟨column, hcolumn, rfl, _⟩, _, rfl, _, _, ⟨line, hline, rfl, _⟩, _, rfl, rfl, rfl⟩
    exact ⟨.ofList (" at line ".toList ++ line ++ " column ".toList ++ column),
      ⟨line, column, hline, hcolumn, by simp⟩, by simp⟩
  · rintro ⟨ending, ⟨line, column, hline, hcolumn, hending⟩, rfl⟩
    refine ⟨p.column, " column ".toList.reverse ++ (line.reverse ++
        (" at line ".toList.reverse ++ rest)), ⟨column, hcolumn, by simp [hending], ?_⟩,
      _, rfl, p.line, _, ⟨line, hline, rfl, ?_⟩, _, rfl, rfl, rfl⟩
    · simp
    · simp

/-- A position is split off a text exactly if the text ends with it. -/
theorem splitPosition_eq_some_iff {s t : String} {p : Position} :
    splitPosition s = (t, some p) ↔ ∃ ending, p.IsText ending ∧ s = t ++ ending := by
  unfold splitPosition
  constructor
  · intro h
    split at h
    · next q back hd =>
      obtain ⟨rfl, hq⟩ := Prod.mk.inj h
      obtain rfl := Option.some.inj hq
      obtain ⟨ending, hending, hs⟩ := dropPosition?_eq_some_iff.mp hd
      refine ⟨ending, hending, ?_⟩
      rw [← String.toList_inj, ← List.reverse_inj, hs]
      simp
    · cases h
  · rintro ⟨ending, hending, rfl⟩
    have hd : dropPosition? (t ++ ending).toList.reverse = some (p, t.toList.reverse) :=
      dropPosition?_eq_some_iff.mpr ⟨ending, hending, by simp⟩
    rw [hd]
    simp

/-- A text from which no position is split off is left as it is. -/
theorem splitPosition_eq_none_iff {s t : String} :
    splitPosition s = (t, none) ↔
      t = s ∧ ∀ (p : Position) (ending u : String), p.IsText ending → s ≠ u ++ ending := by
  constructor
  · intro h
    have ht : t = s := by
      unfold splitPosition at h
      split at h
      · cases h
      · exact (Prod.mk.inj h).1.symm
    refine ⟨ht, fun p ending u hending hs => ?_⟩
    rw [splitPosition_eq_some_iff.mpr ⟨ending, hending, hs⟩] at h
    cases h
  · rintro ⟨rfl, hnone⟩
    rcases hsplit : splitPosition t with ⟨u, _ | p⟩
    · unfold splitPosition at hsplit
      split at hsplit
      · cases hsplit
      · rw [(Prod.mk.inj hsplit).1]
    · obtain ⟨ending, hending, ht⟩ := splitPosition_eq_some_iff.mp hsplit
      exact absurd ht (hnone p ending u hending)

end Text

end DialectTypes
