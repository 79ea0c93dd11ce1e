import DialectTypes.Json.Written
import Mathlib.Data.List.Chain

/-!
# The texts of tokens

Each token has the texts that JSON gives it: a number its sign, digits, fraction
and exponent, a string its characters and escapes. A text consists of tokens if
it is made of their texts, with any blanks before, between and after them. The
tokens that are taken from a text are the tokens of which it consists, as long as
no two numbers stand side by side, for nothing keeps two such numbers apart.
-/

namespace DialectTypes

namespace Json

open Text

section Numbers

/-- One or more digits. -/
def Digits (cs : List Char) : Prop :=
  cs ≠ [] ∧ ∀ c ∈ cs, c.isDigit = true

/-- The texts of the digits before the point. -/
inductive WholeText : List Char → Prop where
  | zero : WholeText ['0']
  | digits {cs : List Char} (h : Digits cs) (h0 : cs.head? ≠ some '0') : WholeText cs

/-- The digits after the point with their texts. -/
inductive FractionText : List Char → List Char → Prop where
  | none : FractionText [] []
  | some {ds : List Char} (h : Digits ds) : FractionText ds ('.' :: ds)

/-- The sign of an exponent, where `true` stands for a minus, with its texts. -/
inductive SignText : Bool → List Char → Prop where
  | none : SignText false []
  | plus : SignText false ['+']
  | minus : SignText true ['-']

/-- The exponents with their texts. -/
inductive ExponentText : Option (Bool × List Char) → List Char → Prop where
  | none : ExponentText none []
  | some {mark : Char} {negative : Bool} {sign ds : List Char} (hm : mark = 'e' ∨ mark = 'E')
      (hs : SignText negative sign) (h : Digits ds) :
      ExponentText (some (negative, ds)) (mark :: (sign ++ ds))

/-- The texts of a number without the sign in front of it. -/
inductive UnsignedText (negative : Bool) : NumberText → List Char → Prop where
  | parts {whole fraction ft et : List Char} {exponent : Option (Bool × List Char)}
      (hw : WholeText whole) (hf : FractionText fraction ft) (he : ExponentText exponent et) :
      UnsignedText negative ⟨negative, whole, fraction, exponent⟩ (whole ++ (ft ++ et))

/-- The numbers with their texts. -/
inductive SignedText : NumberText → List Char → Prop where
  | plain {n : NumberText} {cs : List Char} (h : UnsignedText false n cs) : SignedText n cs
  | minus {n : NumberText} {cs : List Char} (h : UnsignedText true n cs) :
      SignedText n ('-' :: cs)

/-- What follows cannot be a further part of a number. -/
def EndsNumber (rest : List Char) : Prop :=
  ∀ c ∈ rest.head?, c.isDigit = false ∧ c ≠ '.' ∧ c ≠ 'e' ∧ c ≠ 'E'

theorem takeSome_sound {p : Char → Bool} {text taken rest : List Char}
    (h : takeSome p text = some (taken, rest)) :
    text = taken ++ rest ∧ taken ≠ [] ∧ ∀ c ∈ taken, p c = true := by
  unfold takeSome at h
  split at h
  · cases h
  · next hne =>
      cases h
      exact ⟨List.takeWhile_append_dropWhile.symm, by simpa using hne,
        List.all_eq_true.mp List.all_takeWhile⟩

theorem takeSome_complete {p : Char → Bool} {taken rest : List Char} (hne : taken ≠ [])
    (ht : ∀ c ∈ taken, p c = true) (hr : ∀ c ∈ rest.head?, p c = false) :
    takeSome p (taken ++ rest) = some (taken, rest) := by
  have htake : rest.takeWhile p = [] := by
    cases rest with
    | nil => rfl
    | cons c rest => simp [hr c rfl]
  have hdrop : rest.dropWhile p = rest := by
    cases rest with
    | nil => rfl
    | cons c rest => simp [hr c rfl]
  rw [takeSome, List.takeWhile_append_of_pos ht, List.dropWhile_append_of_pos ht, htake, hdrop,
    List.append_nil]
  simp [hne]

theorem scanWhole_sound {text ds rest : List Char} (h : scanWhole text = some (ds, rest)) :
    text = ds ++ rest ∧ WholeText ds := by
  unfold scanWhole at h
  split at h
  · cases h
    exact ⟨rfl, .zero⟩
  · split at h
    · cases h
    · cases h
      exact ⟨rfl, .zero⟩
  · next hone hmore =>
      obtain ⟨rfl, hne, hd⟩ := takeSome_sound h
      refine ⟨rfl, .digits ⟨hne, hd⟩ ?_⟩
      intro hhead
      cases ds with
      | nil => cases hhead
      | cons c ds =>
          obtain rfl := Option.some.inj hhead
          cases hrest : ds ++ rest with
          | nil => exact hone (by simp [hrest])
          | cons c' cs => exact hmore c' cs (by simp [hrest])

theorem scanWhole_complete {ds rest : List Char} (h : WholeText ds)
    (hr : ∀ c ∈ rest.head?, c.isDigit = false) : scanWhole (ds ++ rest) = some (ds, rest) := by
  cases h with
  | zero =>
      cases rest with
      | nil => rfl
      | cons c rest => simp [scanWhole, hr c rfl]
  | digits hd h0 =>
      have htake := takeSome_complete hd.1 hd.2 hr
      cases ds with
      | nil => exact absurd rfl hd.1
      | cons c ds =>
          have hc : c ≠ '0' := fun hc => h0 (by simp [hc])
          rw [scanWhole]
          · exact htake
          · simp [hc]
          · simp [hc]

theorem scanFraction_sound {text ds rest : List Char} (h : scanFraction text = some (ds, rest)) :
    ∃ ft, text = ft ++ rest ∧ FractionText ds ft := by
  unfold scanFraction at h
  split at h
  · obtain ⟨rfl, hd⟩ := takeSome_sound h
    exact ⟨_, rfl, .some hd⟩
  · cases h
    exact ⟨[], rfl, .none⟩

theorem scanFraction_complete {ds ft rest : List Char} (h : FractionText ds ft)
    (hr : ∀ c ∈ rest.head?, c.isDigit = false ∧ c ≠ '.') :
    scanFraction (ft ++ rest) = some (ds, rest) := by
  cases h with
  | none =>
      cases rest with
      | nil => rfl
      | cons c rest =>
          rw [List.nil_append, scanFraction]
          simp [(hr c rfl).2]
  | some hd => exact takeSome_complete hd.1 hd.2 fun c hc => (hr c hc).1

theorem scanExponentDigits_sound {negative : Bool} {text rest : List Char}
    {exponent : Option (Bool × List Char)}
    (h : scanExponentDigits negative text = some (exponent, rest)) :
    ∃ ds, text = ds ++ rest ∧ Digits ds ∧ exponent = some (negative, ds) := by
  simp only [scanExponentDigits, Option.bind_eq_bind, Option.bind_eq_some_iff, Option.pure_def,
    Option.some.injEq, Prod.mk.injEq, Prod.exists] at h
  obtain ⟨ds, _, ht, rfl, rfl⟩ := h
  obtain ⟨htext, hd⟩ := takeSome_sound ht
  exact ⟨ds, htext, hd, rfl⟩

theorem scanExponentDigits_complete {negative : Bool} {ds rest : List Char} (h : Digits ds)
    (hr : ∀ c ∈ rest.head?, c.isDigit = false) :
    scanExponentDigits negative (ds ++ rest) = some (some (negative, ds), rest) := by
  rw [scanExponentDigits, takeSome_complete h.1 h.2 hr]
  rfl

theorem scanExponent_sound {text rest : List Char} {exponent : Option (Bool × List Char)}
    (h : scanExponent text = some (exponent, rest)) :
    ∃ et, text = et ++ rest ∧ ExponentText exponent et := by
  unfold scanExponent at h
  split at h
  · cases h
    exact ⟨[], rfl, .none⟩
  · split at h
    · next hm =>
        split at h
        · obtain ⟨ds, rfl, hd, rfl⟩ := scanExponentDigits_sound h
          exact ⟨_, rfl, .some hm .minus hd⟩
        · obtain ⟨ds, rfl, hd, rfl⟩ := scanExponentDigits_sound h
          exact ⟨_, rfl, .some hm .plus hd⟩
        · obtain ⟨ds, rfl, hd, rfl⟩ := scanExponentDigits_sound h
          exact ⟨_, rfl, .some hm .none hd⟩
    · cases h
      exact ⟨[], rfl, .none⟩

theorem scanExponent_complete {exponent : Option (Bool × List Char)} {et rest : List Char}
    (h : ExponentText exponent et)
    (hr : ∀ c ∈ rest.head?, c.isDigit = false ∧ c ≠ 'e' ∧ c ≠ 'E') :
    scanExponent (et ++ rest) = some (exponent, rest) := by
  have hdigit : ∀ c ∈ rest.head?, c.isDigit = false := fun c hc => (hr c hc).1
  cases h with
  | none =>
      cases rest with
      | nil => rfl
      | cons c rest => simp [scanExponent, (hr c rfl).2]
  | @some mark negative sign ds hm hs hd =>
      have hdigits : scanExponentDigits negative (ds ++ rest) =
          some (some (negative, ds), rest) :=
        scanExponentDigits_complete hd hdigit
      cases hs with
      | plus => simpa [scanExponent, hm] using hdigits
      | minus => simpa [scanExponent, hm] using hdigits
      | none =>
          cases ds with
          | nil => exact absurd rfl hd.1
          | cons c ds =>
              -- The first digit is no sign, so the digits are not mistaken for one.
              have hc : c.isDigit = true := hd.2 c List.mem_cons_self
              have hminus : c ≠ '-' := by rintro rfl; exact absurd hc (by decide)
              have hplus : c ≠ '+' := by rintro rfl; exact absurd hc (by decide)
              simpa [scanExponent, hm, hminus, hplus] using hdigits

theorem scanUnsigned_sound {negative : Bool} {text rest : List Char} {n : NumberText}
    (h : scanUnsigned negative text = some (n, rest)) :
    ∃ cs, text = cs ++ rest ∧ UnsignedText negative n cs := by
  simp only [scanUnsigned, Option.bind_eq_bind, Option.bind_eq_some_iff, Option.pure_def,
    Option.some.injEq, Prod.mk.injEq, Prod.exists] at h
  obtain ⟨whole, _, hw, fraction, _, hf, exponent, _, he, rfl, rfl⟩ := h
  obtain ⟨rfl, hwhole⟩ := scanWhole_sound hw
  obtain ⟨ft, rfl, hfraction⟩ := scanFraction_sound hf
  obtain ⟨et, rfl, hexponent⟩ := scanExponent_sound he
  exact ⟨whole ++ (ft ++ et), by simp, .parts hwhole hfraction hexponent⟩

theorem scanUnsigned_complete {negative : Bool} {n : NumberText} {cs rest : List Char}
    (h : UnsignedText negative n cs) (hr : EndsNumber rest) :
    scanUnsigned negative (cs ++ rest) = some (n, rest) := by
  cases h with
  | @parts whole fraction ft et exponent hw hf he =>
      have hexponent : ∀ c ∈ (et ++ rest).head?, c.isDigit = false ∧ c ≠ '.' := by
        cases he with
        | none => exact fun c hc => ⟨(hr c hc).1, (hr c hc).2.1⟩
        | some hm _ _ =>
            rintro c ⟨⟩
            rcases hm with rfl | rfl <;> decide
      have hfraction : ∀ c ∈ (ft ++ (et ++ rest)).head?, c.isDigit = false := by
        cases hf with
        | none => exact fun c hc => (hexponent c hc).1
        | some _ =>
            rintro c ⟨⟩
            decide
      have hend : ∀ c ∈ rest.head?, c.isDigit = false ∧ c ≠ 'e' ∧ c ≠ 'E' :=
        fun c hc => ⟨(hr c hc).1, (hr c hc).2.2⟩
      rw [List.append_assoc, List.append_assoc, scanUnsigned, scanWhole_complete hw hfraction]
      change ((scanFraction (ft ++ (et ++ rest))).bind _) = _
      rw [scanFraction_complete hf hexponent]
      change ((scanExponent (et ++ rest)).bind _) = _
      rw [scanExponent_complete he hend]
      rfl

theorem UnsignedText.exists_digit {negative : Bool} {n : NumberText} {cs : List Char}
    (h : UnsignedText negative n cs) : ∃ c rest, cs = c :: rest ∧ c.isDigit = true := by
  cases h with
  | parts hw _ _ =>
      cases hw with
      | zero => exact ⟨'0', _, rfl, by decide⟩
      | digits hd _ =>
          obtain ⟨c, tail, rfl⟩ := List.exists_cons_of_ne_nil hd.1
          exact ⟨c, _, rfl, hd.2 c List.mem_cons_self⟩

theorem scanNumber_sound {text rest : List Char} {n : NumberText}
    (h : scanNumber text = some (n, rest)) : ∃ cs, text = cs ++ rest ∧ SignedText n cs := by
  unfold scanNumber at h
  split at h
  · obtain ⟨cs, rfl, hn⟩ := scanUnsigned_sound h
    exact ⟨'-' :: cs, rfl, .minus hn⟩
  · obtain ⟨cs, rfl, hn⟩ := scanUnsigned_sound h
    exact ⟨cs, rfl, .plain hn⟩

theorem scanNumber_complete {n : NumberText} {cs rest : List Char} (h : SignedText n cs)
    (hr : EndsNumber rest) : scanNumber (cs ++ rest) = some (n, rest) := by
  cases h with
  | minus hn => exact scanUnsigned_complete hn hr
  | plain hn =>
      obtain ⟨c, tail, rfl, hc⟩ := hn.exists_digit
      have hminus : c ≠ '-' := by rintro rfl; exact absurd hc (by decide)
      rw [List.cons_append, scanNumber]
      · exact scanUnsigned_complete hn hr
      · simp [hminus]

end Numbers

section Strings

/-- The texts of a piece of a string. -/
inductive PieceText : Piece → List Char → Prop where
  | char {c : Char} (hc : 0x20 ≤ c.toNat) (hq : c ≠ '"') (hb : c ≠ '\\') :
      PieceText (.char c) [c]
  | escape {c d : Char} (h : escaped? c = some d) : PieceText (.char d) ['\\', c]
  | unit {a b c d : Char} {n : Nat} (h : hexNumber? [a, b, c, d] = some n) :
      PieceText (.unit n) ['\\', 'u', a, b, c, d]

/-- The texts of pieces one after another, up to the closing quote. -/
inductive StringText : List Piece → List Char → Prop where
  | close : StringText [] ['"']
  | piece {p : Piece} {ps : List Piece} {cs rest : List Char} (hp : PieceText p cs)
      (h : StringText ps rest) : StringText (p :: ps) (cs ++ rest)

theorem before_eq_some_iff {α : Type} {a : Option α} {scanned : Option (List α × List Char)}
    {as : List α} {rest : List Char} :
    before a scanned = some (as, rest) ↔
      ∃ b tail, a = some b ∧ scanned = some (tail, rest) ∧ as = b :: tail := by
  cases scanned with
  | none => simp [before]
  | some s =>
      cases a with
      | none => simp [before]
      | some b =>
          simp only [before, Option.bind_eq_bind, Option.bind_some, Option.pure_def,
            Option.some.injEq, Prod.mk.injEq]
          grind

theorem scanString_sound {text rest : List Char} {ps : List Piece}
    (h : scanString text = some (ps, rest)) : ∃ cs, text = cs ++ rest ∧ StringText ps cs := by
  fun_induction scanString text generalizing ps with
  | case1 => cases h
  | case2 after =>
      cases h
      exact ⟨['"'], rfl, .close⟩
  | case3 a b c d after ih =>
      obtain ⟨p, tail, hp, hs, rfl⟩ := before_eq_some_iff.mp h
      obtain ⟨n, hn, rfl⟩ := Option.map_eq_some_iff.mp hp
      obtain ⟨cs, rfl, hcs⟩ := ih hs
      exact ⟨_, rfl, .piece (.unit hn) hcs⟩
  | case4 c after _ ih =>
      obtain ⟨p, tail, hp, hs, rfl⟩ := before_eq_some_iff.mp h
      obtain ⟨d, hd, rfl⟩ := Option.map_eq_some_iff.mp hp
      obtain ⟨cs, rfl, hcs⟩ := ih hs
      exact ⟨_, rfl, .piece (.escape hd) hcs⟩
  | case5 => cases h
  | case6 c after hq _ _ hc ih =>
      obtain ⟨p, tail, hp, hs, rfl⟩ := before_eq_some_iff.mp h
      obtain rfl := Option.some.inj hp
      obtain ⟨cs, rfl, hcs⟩ := ih hs
      simp only [not_or, Nat.not_lt] at hc
      exact ⟨_, rfl, .piece (.char hc.1 (fun hc => hq hc) hc.2) hcs⟩

theorem scanString_piece {p : Piece} {cs : List Char} (h : PieceText p cs) (rest : List Char) :
    scanString (cs ++ rest) = before (some p) (scanString rest) := by
  cases h with
  | @char c hc hq hb =>
      have hlow : ¬ c.toNat < 0x20 := Nat.not_lt.mpr hc
      rw [List.cons_append, List.nil_append, scanString]
      · simp [hlow, hb]
      all_goals simp_all
  | @escape c d he =>
      have hu : c ≠ 'u' := by
        rintro rfl
        cases he
      simp only [List.cons_append, List.nil_append]
      rw [scanString]
      · rw [he]
        rfl
      · simp [hu]
  | unit hn =>
      simp only [List.cons_append, List.nil_append]
      rw [scanString, hn]
      rfl

theorem scanString_complete {ps : List Piece} {cs : List Char} (h : StringText ps cs)
    (rest : List Char) : scanString (cs ++ rest) = some (ps, rest) := by
  induction h with
  | close => rfl
  | piece hp _ ih =>
      rw [List.append_assoc, scanString_piece hp, ih]
      rfl

end Strings

section Tokens

/-- The texts of a token. -/
inductive TokenText : Token → List Char → Prop where
  | null : TokenText .null ['n', 'u', 'l', 'l']
  | true : TokenText (.bool true) ['t', 'r', 'u', 'e']
  | false : TokenText (.bool false) ['f', 'a', 'l', 's', 'e']
  | number {n : NumberText} {cs : List Char} (h : SignedText n cs) :
      TokenText (.number n.number?) cs
  | string {ps : List Piece} {cs : List Char} (h : StringText ps cs) :
      TokenText (.string (String.ofList <$> joinPieces ps)) ('"' :: cs)
  | openArray : TokenText .openArray ['[']
  | closeArray : TokenText .closeArray [']']
  | openObject : TokenText .openObject ['\x7b']
  | closeObject : TokenText .closeObject ['\x7d']
  | comma : TokenText .comma [',']
  | colon : TokenText .colon [':']

/-- The text consists of the tokens, with any blanks around them. -/
inductive ConsistsOf : List Char → List Token → Prop where
  | blanks {bs : List Char} (hb : ∀ b ∈ bs, isBlank b = true) : ConsistsOf bs []
  | token {bs cs rest : List Char} {t : Token} {ts : List Token}
      (hb : ∀ b ∈ bs, isBlank b = true) (ht : TokenText t cs) (h : ConsistsOf rest ts) :
      ConsistsOf (bs ++ (cs ++ rest)) (t :: ts)

/-- Tokens can be left out of a text together with the characters they are made of. -/
theorem ConsistsOf.exists_sublist {text : List Char} {ts us : List Token}
    (h : ConsistsOf text ts) (hus : us.Sublist ts) :
    ∃ rest, rest.Sublist text ∧ ConsistsOf rest us := by
  induction h generalizing us with
  | @blanks bs hb =>
      obtain rfl := List.sublist_nil.mp hus
      exact ⟨bs, .refl bs, .blanks hb⟩
  | @token bs cs after t ts hb ht h ih =>
      cases hus with
      | cons _ hus =>
          obtain ⟨rest, hrest, hconsists⟩ := ih hus
          refine ⟨rest, ?_, hconsists⟩
          exact hrest.trans ((List.sublist_append_right cs _).trans (List.sublist_append_right bs _))
      | cons_cons _ hus =>
          obtain ⟨rest, hrest, hconsists⟩ := ih hus
          exact ⟨bs ++ (cs ++ rest), (hrest.append_left cs).append_left bs,
            .token hb ht hconsists⟩

def Token.isNumber : Token → Bool
  | number _ => true
  | _ => false

/-- No two numbers stand side by side. -/
def Separated (ts : List Token) : Prop :=
  ts.IsChain fun t u => ¬ (t.isNumber = true ∧ u.isNumber = true)

/-- A token that is not bad was taken from the start of the text, with one of its texts. -/
def TakenFrom (text : List Char) (taken : Token × List Char) : Prop :=
  taken.1 ≠ .bad → ∃ cs, text = cs ++ taken.2 ∧ TokenText taken.1 cs

theorem takenFrom_bad (text : List Char) : TakenFrom text (.bad, []) :=
  fun hbad => absurd rfl hbad

theorem takenFrom_ite {p : Prop} [Decidable p] {text : List Char} {s t : Token × List Char}
    (hs : p → TakenFrom text s) (ht : ¬ p → TakenFrom text t) :
    TakenFrom text (if p then s else t) := by
  split
  · next h => exact hs h
  · next h => exact ht h

theorem takenFrom_scanWord {c : Char} {token : Token} {word : List Char} (rest : List Char)
    (h : TokenText token (c :: word)) : TakenFrom (c :: rest) (scanWord token word rest) := by
  refine takenFrom_ite ?_ fun _ => takenFrom_bad _
  rintro hp -
  obtain ⟨after, rfl⟩ := List.isPrefixOf_iff_prefix.mp hp
  exact ⟨c :: word, by simp, h⟩

theorem takenFrom_scanToken (c : Char) (rest : List Char) :
    TakenFrom (c :: rest) (scanToken c rest) := by
  have hsign : ∀ {t : Token}, TokenText t [c] → TakenFrom (c :: rest) (t, rest) :=
    fun ht _ => ⟨[c], rfl, ht⟩
  refine takenFrom_ite (fun hc => hsign (hc ▸ .openArray)) fun _ => ?_
  refine takenFrom_ite (fun hc => hsign (hc ▸ .closeArray)) fun _ => ?_
  refine takenFrom_ite (fun hc => hsign (hc ▸ .openObject)) fun _ => ?_
  refine takenFrom_ite (fun hc => hsign (hc ▸ .closeObject)) fun _ => ?_
  refine takenFrom_ite (fun hc => hsign (hc ▸ .comma)) fun _ => ?_
  refine takenFrom_ite (fun hc => hsign (hc ▸ .colon)) fun _ => ?_
  refine takenFrom_ite (fun hc => takenFrom_scanWord rest (hc ▸ .null)) fun _ => ?_
  refine takenFrom_ite (fun hc => takenFrom_scanWord rest (hc ▸ .true)) fun _ => ?_
  refine takenFrom_ite (fun hc => takenFrom_scanWord rest (hc ▸ .false)) fun _ => ?_
  refine takenFrom_ite (fun hc => ?_) fun _ => ?_
  · cases hs : scanString rest with
    | none => exact takenFrom_bad _
    | some s =>
        obtain ⟨cs, rfl, hcs⟩ := scanString_sound hs
        exact fun _ => ⟨'"' :: cs, by rw [hc]; rfl, .string hcs⟩
  · cases hs : scanNumber (c :: rest) with
    | none => exact takenFrom_bad _
    | some s =>
        obtain ⟨cs, hcs, hn⟩ := scanNumber_sound hs
        exact fun _ => ⟨cs, hcs, .number hn⟩

theorem isBlank_of_isDigit {c : Char} (h : c.isDigit = true) : isBlank c = false := by
  rw [Bool.eq_false_iff]
  intro hb
  simp only [isBlank, Bool.or_eq_true, decide_eq_true_eq] at hb
  rcases hb with ((rfl | rfl) | rfl) | rfl <;> exact absurd h (by decide)

/-- A character that starts a number starts no other token. -/
theorem scanToken_eq_scanNumber {c : Char} (h : c.isDigit = true ∨ c = '-') (rest : List Char) :
    scanToken c rest = match scanNumber (c :: rest) with
      | some (n, rest) => (.number n.number?, rest)
      | none => (.bad, []) := by
  have hne : ∀ d : Char, d.isDigit = false → d ≠ '-' → c ≠ d := by
    rintro d hd hm rfl
    rcases h with h | h
    · rw [h] at hd
      cases hd
    · exact hm h
  rewrite [scanToken]
  repeat rewrite [if_neg (hne _ (by decide) (by decide))]
  cases scanNumber (c :: rest) <;> rfl

theorem SignedText.exists_start {n : NumberText} {cs : List Char} (h : SignedText n cs) :
    ∃ c tail, cs = c :: tail ∧ (c.isDigit = true ∨ c = '-') := by
  cases h with
  | plain hn =>
      obtain ⟨c, tail, rfl, hc⟩ := hn.exists_digit
      exact ⟨c, tail, rfl, Or.inl hc⟩
  | minus _ => exact ⟨'-', _, rfl, Or.inr rfl⟩

/-- A token is taken from the start of a text, if what follows does not go on with a number. -/
theorem lex_tokenText {t : Token} {cs : List Char} (h : TokenText t cs) {rest : List Char}
    (hr : t.isNumber = true → EndsNumber rest) : lex (cs ++ rest) = t :: lex rest := by
  cases h with
  | null => exact lex_cons (by decide) (by simp [scanToken, scanWord]) (by simp)
  | true => exact lex_true rest
  | false => exact lex_false rest
  | @number n _ hn =>
      obtain ⟨c, tail, rfl, hc⟩ := hn.exists_start
      have hb : isBlank c = false := by
        rcases hc with hc | rfl
        · exact isBlank_of_isDigit hc
        · decide
      have hscan : scanToken c (tail ++ rest) = (.number n.number?, rest) := by
        rw [scanToken_eq_scanNumber hc, ← List.cons_append, scanNumber_complete hn (hr rfl)]
      exact lex_cons hb hscan (by simp)
  | @string ps cs hs =>
      have hscan : scanToken '"' (cs ++ rest) =
          (.string (String.ofList <$> joinPieces ps), rest) := by
        simp only [scanToken, Char.reduceEq, if_false, if_true, scanString_complete hs]
      exact lex_cons (by decide) hscan (by simp)
  | openArray => exact lex_openArray rest
  | closeArray => exact lex_closeArray rest
  | openObject => exact lex_openObject rest
  | closeObject => exact lex_closeObject rest
  | comma => exact lex_comma rest
  | colon => exact lex_colon rest

theorem lex_blanks {bs : List Char} (hb : ∀ b ∈ bs, isBlank b = true) (rest : List Char) :
    lex (bs ++ rest) = lex rest := by
  induction bs with
  | nil => rfl
  | cons b bs ih =>
      rw [List.cons_append, lex, if_pos (hb b List.mem_cons_self)]
      exact ih fun c hc => hb c (List.mem_cons_of_mem _ hc)

/-- No number goes on with a blank or with a token other than a number. -/
theorem endsNumber_of_consistsOf {text : List Char} {ts : List Token} (h : ConsistsOf text ts)
    (hn : ∀ t ∈ ts.head?, t.isNumber = false) : EndsNumber text := by
  have hblank : ∀ c, isBlank c = true →
      c.isDigit = false ∧ c ≠ '.' ∧ c ≠ 'e' ∧ c ≠ 'E' := by
    intro c hc
    simp only [isBlank, Bool.or_eq_true, decide_eq_true_eq] at hc
    rcases hc with ((rfl | rfl) | rfl) | rfl <;> decide
  have hblanks : ∀ (bs rest : List Char), (∀ b ∈ bs, isBlank b = true) → EndsNumber rest →
      EndsNumber (bs ++ rest) := by
    intro bs rest hb hrest
    cases bs with
    | nil => exact hrest
    | cons b bs =>
        rintro c ⟨⟩
        exact hblank b (hb b List.mem_cons_self)
  cases h with
  | blanks hb => simpa using hblanks _ [] hb (by simp [EndsNumber])
  | token hb ht _ =>
      apply hblanks _ _ hb
      have htoken := hn _ rfl
      cases ht with
      | number _ => cases htoken
      | _ =>
          rintro c ⟨⟩
          decide

/-- A text without a bad token consists of the tokens that are taken from it. -/
theorem consistsOf_lex {text : List Char} (h : Token.bad ∉ lex text) :
    ConsistsOf text (lex text) := by
  induction text using lex.induct with
  | case1 =>
      rw [lex]
      exact .blanks (by simp)
  | case2 c rest hc ih =>
      have hlex : lex (c :: rest) = lex rest := by rw [lex, if_pos hc]
      rw [hlex] at h ⊢
      -- The blank in front joins those that are there already.
      have hrest := ih h
      generalize lex rest = ts at hrest
      cases hrest with
      | blanks hb => exact .blanks (by simpa [hc] using hb)
      | @token bs cs after t ts hb ht hts =>
          have hb' : ∀ b ∈ c :: bs, isBlank b = true := by simpa [hc] using hb
          exact .token hb' ht hts
  | case3 c rest hc after hs =>
      refine absurd ?_ h
      rw [lex, if_neg hc]
      split
      · exact List.mem_singleton.mpr rfl
      · next hother hs' =>
          rw [hs] at hs'
          exact absurd (Prod.mk.inj hs').1.symm hother
  | case4 c rest hc token after hne hs ih =>
      have hlex : lex (c :: rest) = token :: lex after :=
        lex_cons (by simpa using hc) hs hne
      rw [hlex] at h ⊢
      have htaken := takenFrom_scanToken c rest
      rw [hs] at htaken
      obtain ⟨cs, hcs, ht⟩ := htaken hne
      rw [hcs]
      have hmem : Token.bad ∉ lex after := fun hm => h (List.mem_cons_of_mem _ hm)
      exact ConsistsOf.token (List.forall_mem_nil _) ht (ih hmem)

/-- The tokens that are taken from a text are those of which it consists. -/
theorem lex_of_consistsOf {text : List Char} {ts : List Token} (h : ConsistsOf text ts)
    (hs : Separated ts) : lex text = ts := by
  induction h with
  | blanks hb =>
      have hlex := lex_blanks hb []
      rw [List.append_nil] at hlex
      rw [hlex, lex]
  | @token bs cs rest t ts hb ht h ih =>
      have hnext : t.isNumber = true → EndsNumber rest := by
        intro hn
        apply endsNumber_of_consistsOf h
        intro u hu
        rw [Separated, List.isChain_cons] at hs
        simpa [hn] using hs.1 u hu
      have htail : Separated ts := (List.isChain_cons.mp hs).2
      rw [lex_blanks hb, lex_tokenText ht hnext, ih htail]

end Tokens

end Json

end DialectTypes
