import DialectTypes.Json.Document
import DialectTypes.Proofs.Lexemes

/-!
# The texts of documents

A document that is followed to its end has a list of tokens, and a text denotes
the document if it consists of these tokens. This is the grammar of JSON: values,
the parts of arrays and objects between commas, keys and values around a colon,
and blanks wherever two tokens meet. Reading a text to its end finds exactly the
document that the text denotes.

In one direction the tokens of a document are taken one by one until the document
is complete. In the other direction every state of the machine has read certain
tokens, and a complete document has read its own.
-/

namespace DialectTypes

open Json (Token)

namespace Document

mutual

/-- The tokens of which a text of the document consists. -/
def tokens : Document → List Token
  | null => [.null]
  | bool b => [.bool b]
  | number n => [.number n]
  | string s => [.string s]
  | array [] _ => [.openArray, .closeArray]
  | array (d :: ds) _ => .openArray :: (tokens d ++ itemTokens ds)
  | object [] _ => [.openObject, .closeObject]
  | object ((key, d) :: ms) _ =>
    .openObject :: .string key :: .colon :: (tokens d ++ memberTokens ms)
  | broken => [.bad]

/-- The tokens of the rest of an array after an item. -/
def itemTokens : List Document → List Token
  | [] => [.closeArray]
  | d :: ds => .comma :: (tokens d ++ itemTokens ds)

/-- The tokens of the rest of an object after a member. -/
def memberTokens : List (Option String × Document) → List Token
  | [] => [.closeObject]
  | (key, d) :: ms => .comma :: .string key :: .colon :: (tokens d ++ memberTokens ms)

end

end Document

namespace Json

/-- The text is a JSON text, and the document is what it denotes. -/
def Denotes (text : String) (d : Document) : Prop :=
  d.intact = true ∧ ConsistsOf text.toList d.tokens

section Separated

theorem separated_cons {t : Token} {ts : List Token} (ht : t.isNumber = false)
    (h : Separated ts) : Separated (t :: ts) :=
  List.isChain_cons.mpr ⟨fun _ _ hboth => by simp [ht] at hboth, h⟩

theorem separated_number {n : Option Number} {ts : List Token} (h : Separated ts)
    (hn : ∀ t ∈ ts.head?, t.isNumber = false) : Separated (.number n :: ts) :=
  List.isChain_cons.mpr ⟨fun t ht hboth => by simp [hn t ht] at hboth, h⟩

theorem head?_itemTokens (ds : List Document) (ts : List Token) :
    ∀ t ∈ (Document.itemTokens ds ++ ts).head?, t.isNumber = false := by
  cases ds <;> simp [Document.itemTokens, Token.isNumber]

theorem head?_memberTokens (ms : List (Option String × Document)) (ts : List Token) :
    ∀ t ∈ (Document.memberTokens ms ++ ts).head?, t.isNumber = false := by
  cases ms <;> simp [Document.memberTokens, Token.isNumber]

mutual

/-- After a value comes no number, so within a document numbers are kept apart. -/
theorem separated_tokens : ∀ (d : Document) {ts : List Token}, Separated ts →
    (∀ t ∈ ts.head?, t.isNumber = false) → Separated (d.tokens ++ ts)
  | .null, _, h, _ | .bool _, _, h, _ | .string _, _, h, _ | .broken, _, h, _ =>
      separated_cons rfl h
  | .number _, _, h, hn => separated_number h hn
  | .array [] _, _, h, _ | .object [] _, _, h, _ => separated_cons rfl (separated_cons rfl h)
  | .array (d :: ds) _, ts, h, _ => by
      have hd := separated_tokens d (separated_itemTokens ds h) (head?_itemTokens ds ts)
      simpa [Document.tokens] using separated_cons rfl hd
  | .object ((key, d) :: ms) _, ts, h, _ => by
      have hd := separated_tokens d (separated_memberTokens ms h) (head?_memberTokens ms ts)
      simpa [Document.tokens] using
        separated_cons rfl (separated_cons rfl (separated_cons rfl hd))

theorem separated_itemTokens : ∀ (ds : List Document) {ts : List Token}, Separated ts →
    Separated (Document.itemTokens ds ++ ts)
  | [], _, h => separated_cons rfl h
  | d :: ds, ts, h => by
      have hd := separated_tokens d (separated_itemTokens ds h) (head?_itemTokens ds ts)
      simpa [Document.itemTokens] using separated_cons rfl hd

theorem separated_memberTokens : ∀ (ms : List (Option String × Document)) {ts : List Token},
    Separated ts → Separated (Document.memberTokens ms ++ ts)
  | [], _, h => separated_cons rfl h
  | (key, d) :: ms, ts, h => by
      have hd := separated_tokens d (separated_memberTokens ms h) (head?_memberTokens ms ts)
      simpa [Document.memberTokens] using
        separated_cons rfl (separated_cons rfl (separated_cons rfl hd))

end

end Separated

section Taking

open State

/-- An array may start with any value. -/
theorem run_firstItem_tokens {d : Document} (hd : d.intact = true) (outer : List Frame)
    (ts : List Token) : (firstItem outer).run (d.tokens ++ ts) =
      (value (.array [] :: outer)).run (d.tokens ++ ts) := by
  cases d with
  | null | bool _ | number _ | string _ => rfl
  | array ds _ => cases ds <;> rfl
  | object ms _ => cases ms <;> rfl
  | broken => cases hd

mutual

/-- Taking the tokens of a document where a value may start completes the document. -/
theorem run_documentTokens : ∀ (d : Document), d.intact = true → ∀ (outer : List Frame)
    (ts : List Token), (value outer).run (d.tokens ++ ts) = (resume d outer).run ts
  | .null, _, _, _ | .bool _, _, _, _ | .number _, _, _, _ | .string _, _, _, _ => rfl
  | .broken, hd, _, _ => by cases hd
  | .array [] closed, hd, _, _ => by
      obtain rfl : closed = true := by simpa [Document.intact, Document.intactItems] using hd
      rfl
  | .array (d :: ds) closed, hd, outer, ts => by
      simp only [Document.intact, Document.intactItems, Bool.and_eq_true] at hd
      obtain ⟨rfl, hd, hds⟩ := hd
      rw [Document.tokens, List.cons_append, List.append_assoc]
      exact (run_firstItem_tokens hd outer _).trans
        ((run_documentTokens d hd _ _).trans (run_documentItems ds hds [d] outer ts))
  | .object [] closed, hd, _, _ => by
      obtain rfl : closed = true := by simpa [Document.intact, Document.intactMembers] using hd
      rfl
  | .object ((k, d) :: ms) closed, hd, outer, ts => by
      simp only [Document.intact, Document.intactMembers, Bool.and_eq_true] at hd
      obtain ⟨rfl, hd, hms⟩ := hd
      rw [Document.tokens, List.cons_append, List.cons_append, List.cons_append, List.append_assoc]
      exact (run_documentTokens d hd (.object [] k :: outer) _).trans
        (run_documentMembers ms hms [(k, d)] outer ts)

theorem run_documentItems : ∀ (ds : List Document), Document.intactItems ds = true →
    ∀ (before : List Document) (outer : List Frame) (ts : List Token),
    (afterItem before outer).run (Document.itemTokens ds ++ ts) =
      (resume (.array (before.reverse ++ ds) true) outer).run ts
  | [], _, before, outer, ts => by simp [Document.itemTokens, State.run, step?]
  | d :: ds, hds, before, outer, ts => by
      simp only [Document.intactItems, Bool.and_eq_true] at hds
      simp [Document.itemTokens, State.run, step?, run_documentTokens d hds.1, resume,
        run_documentItems ds hds.2]

theorem run_documentMembers : ∀ (ms : List (Option String × Document)),
    Document.intactMembers ms = true → ∀ (before : List (Option String × Document))
    (outer : List Frame) (ts : List Token),
    (afterMember before outer).run (Document.memberTokens ms ++ ts) =
      (resume (.object (before.reverse ++ ms) true) outer).run ts
  | [], _, before, outer, ts => by simp [Document.memberTokens, State.run, step?]
  | (k, d) :: ms, hms, before, outer, ts => by
      simp only [Document.intactMembers, Bool.and_eq_true] at hms
      simp [Document.memberTokens, State.run, step?, run_documentTokens d hms.1, resume,
        run_documentMembers ms hms.2]

end

theorem lex_of_denotes {text : String} {d : Document} (h : Denotes text d) :
    lex text.toList = d.tokens := by
  have hsep : Separated d.tokens := by
    simpa using separated_tokens d (List.isChain_nil : Separated []) (by simp)
  exact lex_of_consistsOf h.2 hsep

/-- A text is read as the document that it denotes, to its end. -/
theorem source_of_denotes {text : String} {d : Document} (h : Denotes text d) :
    Json.source text = ⟨d, true⟩ := by
  have hrun := run_documentTokens d h.1 [] []
  rw [List.append_nil] at hrun
  rw [Json.source, lex_of_denotes h, hrun]
  rfl

end Taking

section Found

open State

/-- The items before the next one, each with the comma after it. -/
def itemsRead (items : List Document) : List Token :=
  items.reverse.flatMap fun d => d.tokens ++ [.comma]

/-- The members before the next one, each with the comma after it. -/
def membersRead (members : List (Option String × Document)) : List Token :=
  members.reverse.flatMap fun m => .string m.1 :: .colon :: (m.2.tokens ++ [.comma])

/-- The tokens of the open parts, up to the place of the next value. -/
def framesRead : List Frame → List Token
  | [] => []
  | .array items :: outer => framesRead outer ++ .openArray :: itemsRead items
  | .object members k :: outer =>
    framesRead outer ++ .openObject :: (membersRead members ++ [.string k, .colon])

/-- The state is one in which the tokens have been read. -/
inductive HasRead : State → List Token → Prop where
  | value (outer : List Frame) : HasRead (value outer) (framesRead outer)
  | firstItem (outer : List Frame) :
      HasRead (firstItem outer) (framesRead outer ++ [.openArray])
  | firstKey (outer : List Frame) :
      HasRead (firstKey outer) (framesRead outer ++ [.openObject])
  | key (members : List (Option String × Document)) (outer : List Frame) :
      HasRead (key members outer) (framesRead outer ++ .openObject :: membersRead members)
  | colon (members : List (Option String × Document)) (k : Option String) (outer : List Frame) :
      HasRead (colon members k outer)
        (framesRead outer ++ .openObject :: (membersRead members ++ [.string k]))
  | afterItem (d : Document) (items : List Document) (outer : List Frame) :
      HasRead (afterItem (d :: items) outer) (framesRead (.array items :: outer) ++ d.tokens)
  | afterMember (k : Option String) (d : Document) (members : List (Option String × Document))
      (outer : List Frame) :
      HasRead (afterMember ((k, d) :: members) outer)
        (framesRead (.object members k :: outer) ++ d.tokens)
  | done (d : Document) : HasRead (done d) d.tokens

theorem itemTokens_append (ds : List Document) (d : Document) :
    Document.itemTokens (ds ++ [d]) =
      .comma :: (ds.flatMap (fun d => d.tokens ++ [.comma]) ++ (d.tokens ++ [.closeArray])) := by
  induction ds with
  | nil => rfl
  | cons e ds ih => simp [Document.itemTokens, ih]

theorem tokens_array_reverse (d : Document) (items : List Document) :
    (Document.array (d :: items).reverse true).tokens =
      .openArray :: (itemsRead items ++ (d.tokens ++ [.closeArray])) := by
  rw [List.reverse_cons, itemsRead]
  cases items.reverse with
  | nil => rfl
  | cons e ds => simp [Document.tokens, itemTokens_append]

theorem memberTokens_append (ms : List (Option String × Document)) (k : Option String)
    (d : Document) :
    Document.memberTokens (ms ++ [(k, d)]) =
      .comma :: (ms.flatMap (fun m => .string m.1 :: .colon :: (m.2.tokens ++ [.comma])) ++
        .string k :: .colon :: (d.tokens ++ [.closeObject])) := by
  induction ms with
  | nil => rfl
  | cons m ms ih => simp [Document.memberTokens, ih]

theorem tokens_object_reverse (k : Option String) (d : Document)
    (members : List (Option String × Document)) :
    (Document.object ((k, d) :: members).reverse true).tokens =
      .openObject ::
        (membersRead members ++ .string k :: .colon :: (d.tokens ++ [.closeObject])) := by
  rw [List.reverse_cons, membersRead]
  cases members.reverse with
  | nil => rfl
  | cons m ms => simp [Document.tokens, memberTokens_append]

theorem hasRead_resume (d : Document) (outer : List Frame) :
    HasRead (resume d outer) (framesRead outer ++ d.tokens) := by
  cases outer with
  | nil => exact .done d
  | cons f outer =>
      cases f with
      | array items => exact .afterItem d items outer
      | object members k => exact .afterMember k d members outer

theorem hasRead_startValue {outer : List Frame} {t : Token} {s : State}
    (h : startValue outer t = some s) : HasRead s (framesRead outer ++ [t]) := by
  cases t with
  | null => cases h; exact hasRead_resume _ _
  | bool _ => cases h; exact hasRead_resume _ _
  | number _ => cases h; exact hasRead_resume _ _
  | string _ => cases h; exact hasRead_resume _ _
  | openArray => cases h; exact .firstItem outer
  | openObject => cases h; exact .firstKey outer
  | closeArray | closeObject | comma | colon | bad => cases h

/-- Where the first item of an array may start, any token but the end of the array starts one. -/
theorem step?_firstItem (outer : List Frame) {t : Token} (ht : t ≠ .closeArray) :
    (firstItem outer).step? t = startValue (.array [] :: outer) t := by
  cases t with
  | closeArray => exact absurd rfl ht
  | _ => rfl

/-- Whatever token a state takes, the next state has read it as well. -/
theorem HasRead.step {s s' : State} {ts : List Token} {t : Token} (h : HasRead s ts)
    (hs : s.step? t = some s') : HasRead s' (ts ++ [t]) := by
  cases h with
  | value outer => exact hasRead_startValue hs
  | firstItem outer =>
      by_cases ht : t = .closeArray
      · subst ht
        cases hs
        simpa [Document.tokens] using hasRead_resume (.array [] true) outer
      · rw [step?_firstItem outer ht] at hs
        simpa [framesRead, itemsRead] using hasRead_startValue hs
  | firstKey outer =>
      cases t with
      | closeObject =>
          cases hs
          simpa [Document.tokens] using hasRead_resume (.object [] true) outer
      | string k =>
          cases hs
          simpa [membersRead] using HasRead.colon [] k outer
      | _ => cases hs
  | key members outer =>
      cases t with
      | string k =>
          cases hs
          simpa using HasRead.colon members k outer
      | _ => cases hs
  | colon members k outer =>
      cases t with
      | colon =>
          cases hs
          simpa [framesRead] using HasRead.value (.object members k :: outer)
      | _ => cases hs
  | afterItem d items outer =>
      cases t with
      | comma =>
          cases hs
          simpa [framesRead, itemsRead] using HasRead.value (.array (d :: items) :: outer)
      | closeArray =>
          cases hs
          have hread := hasRead_resume (.array (d :: items).reverse true) outer
          rw [tokens_array_reverse] at hread
          simpa [framesRead] using hread
      | _ => cases hs
  | afterMember k d members outer =>
      cases t with
      | comma =>
          cases hs
          simpa [framesRead, membersRead] using HasRead.key ((k, d) :: members) outer
      | closeObject =>
          cases hs
          have hread := hasRead_resume (.object ((k, d) :: members).reverse true) outer
          rw [tokens_object_reverse] at hread
          simpa [framesRead] using hread
      | _ => cases hs
  | done d => cases hs

/-- What is closed before its end is not intact. -/
theorem intact_close {d : Document} {outer : List Frame} (h : (close d outer).intact = true) :
    d.intact = true := by
  induction outer generalizing d with
  | nil => exact h
  | cons f outer ih =>
      cases f with
      | array items => exact absurd (ih h) (by simp [Document.intact])
      | object members k => exact absurd (ih h) (by simp [Document.intact])

/-- Only a complete document is left intact where no further token is taken. -/
theorem exists_done_of_intact_stop {s : State} (h : s.stop.intact = true) :
    ∃ d, s = State.done d := by
  cases s with
  | done d => exact ⟨d, rfl⟩
  | value _ => exact absurd (intact_close h) (by simp [Document.intact])
  | firstItem _ => exact absurd (intact_close h) (by simp [Document.intact])
  | firstKey _ => exact absurd (intact_close h) (by simp [Document.intact])
  | key _ _ => exact absurd (intact_close h) (by simp [Document.intact])
  | colon _ _ _ => exact absurd (intact_close h) (by simp [Document.intact])
  | afterItem _ _ => exact absurd (intact_close h) (by simp [Document.intact])
  | afterMember _ _ => exact absurd (intact_close h) (by simp [Document.intact])

/-- A run that ends with an intact document has read the tokens of the document. -/
theorem HasRead.run {s : State} {ts us : List Token} {d : Document} (h : HasRead s ts)
    (hrun : s.run us = ⟨d, true⟩) (hd : d.intact = true) : ts ++ us = d.tokens := by
  induction us generalizing s ts with
  | nil =>
      obtain ⟨rfl, -⟩ := Source.mk.inj hrun
      obtain ⟨d, rfl⟩ := exists_done_of_intact_stop hd
      cases h with
      | done d => exact List.append_nil _
  | cons t us ih =>
      rw [State.run] at hrun
      cases hs : s.step? t with
      | none =>
          rw [hs] at hrun
          cases hrun
      | some s' =>
          rw [hs] at hrun
          simpa using ih (h.step hs) hrun

mutual

theorem bad_not_mem_tokens : ∀ d : Document, d.intact = true → Token.bad ∉ d.tokens
  | .null, _ | .bool _, _ | .number _, _ | .string _, _ => by simp [Document.tokens]
  | .array [] _, _ | .object [] _, _ => by simp [Document.tokens]
  | .array (d :: ds) _, hd => by
      simp only [Document.intact, Document.intactItems, Bool.and_eq_true] at hd
      simp [Document.tokens, bad_not_mem_tokens d hd.2.1, bad_not_mem_itemTokens ds hd.2.2]
  | .object ((k, d) :: ms) _, hd => by
      simp only [Document.intact, Document.intactMembers, Bool.and_eq_true] at hd
      simp [Document.tokens, bad_not_mem_tokens d hd.2.1, bad_not_mem_memberTokens ms hd.2.2]
  | .broken, hd => by cases hd

theorem bad_not_mem_itemTokens : ∀ ds : List Document, Document.intactItems ds = true →
    Token.bad ∉ Document.itemTokens ds
  | [], _ => by simp [Document.itemTokens]
  | d :: ds, hds => by
      simp only [Document.intactItems, Bool.and_eq_true] at hds
      simp [Document.itemTokens, bad_not_mem_tokens d hds.1, bad_not_mem_itemTokens ds hds.2]

theorem bad_not_mem_memberTokens : ∀ ms : List (Option String × Document),
    Document.intactMembers ms = true → Token.bad ∉ Document.memberTokens ms
  | [], _ => by simp [Document.memberTokens]
  | (k, d) :: ms, hms => by
      simp only [Document.intactMembers, Bool.and_eq_true] at hms
      simp [Document.memberTokens, bad_not_mem_tokens d hms.1, bad_not_mem_memberTokens ms hms.2]

end

/-- A text that is read to its end as an intact document denotes the document. -/
theorem denotes_of_source {text : String} {d : Document}
    (h : Json.source text = ⟨d, true⟩) (hd : d.intact = true) : Denotes text d := by
  have htokens : lex text.toList = d.tokens := (HasRead.value []).run h hd
  refine ⟨hd, ?_⟩
  rw [← htokens]
  apply consistsOf_lex
  rw [htokens]
  exact bad_not_mem_tokens d hd

end Found

/-- A text denotes a document exactly if reading the text finds the document intact and
nothing after it. -/
theorem denotes_iff_source {text : String} {d : Document} :
    Denotes text d ↔ Json.source text = ⟨d, true⟩ ∧ d.intact = true :=
  ⟨fun h => ⟨source_of_denotes h, h.1⟩, fun h => denotes_of_source h.1 h.2⟩

/-- A text denotes one document at most. -/
theorem Denotes.unique {text : String} {d d' : Document} (h : Denotes text d)
    (h' : Denotes text d') : d = d' :=
  congrArg Source.document ((source_of_denotes h).symm.trans (source_of_denotes h'))

section Removal

open Document

variable {m : Option String × Document} {ms ns : List (Option String × Document)} {closed : Bool}

theorem memberTokens_sublist (h : ns.Sublist ms) :
    (memberTokens ns).Sublist (memberTokens ms) := by
  induction h with
  | slnil => exact .refl _
  | @cons ns ms m h ih =>
      exact (((ih.trans (List.sublist_append_right m.2.tokens _)).cons _).cons _).cons _
  | @cons_cons ns ms m h ih =>
      exact (((ih.append_left m.2.tokens).cons_cons _).cons_cons _).cons_cons _

/-- The first member of an object may be left out, with the comma after it. -/
theorem tokens_tail_sublist :
    (tokens (.object ms closed)).Sublist (tokens (.object (m :: ms) closed)) := by
  have htail : (tokens (.object ms closed)).Sublist (.openObject :: memberTokens ms) := by
    cases ms with
    | nil => exact .refl _
    | cons n ms => exact ((List.Sublist.refl _).cons _).cons_cons _
  refine htail.trans (((List.Sublist.cons _ ?_).cons _).cons_cons _)
  exact List.sublist_append_right m.2.tokens _

theorem tokens_object_sublist (h : ns.Sublist ms) :
    (tokens (.object ns closed)).Sublist (tokens (.object ms closed)) := by
  induction h with
  | slnil => exact .refl _
  | cons m h ih => exact ih.trans tokens_tail_sublist
  | cons_cons m h ih =>
      refine List.Sublist.cons_cons _ (.cons_cons _ (.cons_cons _ ?_))
      exact (memberTokens_sublist h).append_left m.2.tokens

/-- Members can be left out of the text of a table. -/
theorem Denotes.exists_sublist {text : String} (h : Denotes text (.object ms true))
    (hns : ns.Sublist ms) :
    ∃ rest : String, rest.toList.Sublist text.toList ∧ Denotes rest (.object ns true) := by
  obtain ⟨hintact, hconsists⟩ := h
  obtain ⟨rest, hrest, hconsists⟩ := hconsists.exists_sublist (tokens_object_sublist hns)
  rw [← String.toList_ofList (l := rest)] at hrest hconsists
  refine ⟨String.ofList rest, hrest, ?_, hconsists⟩
  rw [intact, Bool.true_and, intactMembers_iff] at hintact ⊢
  exact fun m hm => hintact m (hns.subset hm)

end Removal

end Json

end DialectTypes
