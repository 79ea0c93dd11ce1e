import DialectTypes.Text.Invisible

/-!
# Quoted text

Messages show a string between quotes. Quotes, backslashes and the common
control characters are written by short escapes, and what has no shape of its
own by its code point.
-/

namespace DialectTypes

namespace Text

/-- The text of one character between quotes. -/
def shown (c : Char) : String :=
  if c = '\x00' then "\\0"
  else if c = '\t' then "\\t"
  else if c = '\n' then "\\n"
  else if c = '\r' then "\\r"
  else if c = '"' then "\\\""
  else if c = '\\' then "\\\\"
  else if isInvisible c then "\\u\x7b" ++ String.ofList (Nat.toDigits 16 c.toNat) ++ "\x7d"
  else c.toString

def quoted (s : String) : String :=
  "\"" ++ String.join (s.toList.map shown) ++ "\""

end Text

end DialectTypes
