import DialectTypes.Proofs.Acceptance
import DialectTypes.Proofs.JsonText

/-!
# The objects of a text

Going through a text from left to right, an object is met wherever its bracket
opens, so an object is met before those within it. What is met is what reading
from that bracket finds. A bracket within a string belongs to the string and
opens nothing.

In a text that denotes a document these are the tables of the document, each
before the tables within it, and members and items in their order.
-/

namespace DialectTypes

namespace Document

mutual

/-- The tables in a document, each before the tables within it. -/
def tables : Document → List Document
  | null | bool _ | number _ | string _ | broken => []
  | array ds _ => itemTables ds
  | object ms closed => object ms closed :: memberTables ms

def itemTables : List Document → List Document
  | [] => []
  | d :: ds => tables d ++ itemTables ds

def memberTables : List (Option String × Document) → List Document
  | [] => []
  | (_, d) :: ms => tables d ++ memberTables ms

end

theorem itemTables_eq (ds : List Document) : itemTables ds = ds.flatMap tables := by
  induction ds with
  | nil => rfl
  | cons d ds ih => simp [itemTables, ih]

theorem memberTables_eq (ms : List (Option String × Document)) :
    memberTables ms = ms.flatMap fun m => m.2.tables := by
  induction ms with
  | nil => rfl
  | cons m ms ih => simp [memberTables, ih]

def string? : Document → Option String
  | string s => s
  | _ => none

/-- The strings that a document has under a key, in their order. -/
def strings (d : Document) (key : String) : List String :=
  (d.values key).filterMap string?

end Document

namespace Json

/-- The objects that open among the tokens, from left to right. -/
def openedIn : List Token → List Document
  | [] => []
  | .openObject :: ts => ((State.value []).run (.openObject :: ts)).document :: openedIn ts
  | _ :: ts => openedIn ts

/-- The objects of a text, from left to right. -/
def objects (text : String) : List Document :=
  openedIn (lex text.toList)

/-- Whatever comes after a document does not change it. -/
theorem document_run_done (d : Document) (ts : List Token) :
    ((State.done d).run ts).document = d := by
  cases ts <;> rfl

/-- Reading from the start of a document finds the document. -/
theorem document_run_tokens {d : Document} (hd : d.intact = true) (ts : List Token) :
    ((State.value []).run (d.tokens ++ ts)).document = d := by
  rw [run_documentTokens d hd, State.resume, document_run_done]

open Document

mutual

/-- Among the tokens of a document open the tables of the document. -/
theorem openedIn_tokens : ∀ d : Document, d.intact = true → ∀ ts : List Token,
    openedIn (d.tokens ++ ts) = d.tables ++ openedIn ts
  | .null, _, _ | .bool _, _, _ | .number _, _, _ | .string _, _, _ => rfl
  | .broken, hd, _ => by cases hd
  | .array [] _, _, _ => rfl
  | .array (d :: ds) _, hd, ts => by
      simp only [intact, intactItems, Bool.and_eq_true] at hd
      simp [tokens, tables, itemTables, openedIn, openedIn_tokens d hd.2.1,
        openedIn_itemTokens ds hd.2.2]
  | .object ms closed, hd, ts => by
      have hfound := document_run_tokens hd ts
      cases ms with
      | nil =>
          rw [tokens, List.cons_append] at hfound ⊢
          rw [openedIn, hfound]
          rfl
      | cons m ms =>
          obtain ⟨k, d⟩ := m
          rw [tokens, List.cons_append] at hfound ⊢
          simp only [intact, intactMembers, Bool.and_eq_true] at hd
          rw [openedIn, hfound]
          simp [tables, memberTables, openedIn, openedIn_tokens d hd.2.1,
            openedIn_memberTokens ms hd.2.2]

theorem openedIn_itemTokens : ∀ ds : List Document, intactItems ds = true →
    ∀ ts : List Token, openedIn (itemTokens ds ++ ts) = itemTables ds ++ openedIn ts
  | [], _, _ => rfl
  | d :: ds, hds, ts => by
      simp only [intactItems, Bool.and_eq_true] at hds
      simp [itemTokens, itemTables, openedIn, openedIn_tokens d hds.1,
        openedIn_itemTokens ds hds.2]

theorem openedIn_memberTokens : ∀ ms : List (Option String × Document),
    intactMembers ms = true → ∀ ts : List Token,
    openedIn (memberTokens ms ++ ts) = memberTables ms ++ openedIn ts
  | [], _, _ => rfl
  | (k, d) :: ms, hms, ts => by
      simp only [intactMembers, Bool.and_eq_true] at hms
      simp [memberTokens, memberTables, openedIn, openedIn_tokens d hms.1,
        openedIn_memberTokens ms hms.2]

end

/-- The objects of a text, from left to right, are the tables of the document that it denotes. -/
theorem objects_of_denotes {text : String} {d : Document} (h : Denotes text d) :
    objects text = d.tables := by
  have hopened := openedIn_tokens d h.1 []
  rw [List.append_nil] at hopened
  rw [objects, lex_of_denotes h, hopened]
  exact List.append_nil _

end Json

end DialectTypes
