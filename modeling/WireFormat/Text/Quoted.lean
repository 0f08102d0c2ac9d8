/-
# Quoted text

Text in a message stands in double quotes. Quotes, backslashes and the common
controls are escaped by a letter, other characters that do not show by their
number.

Key definitions: `Text.escape`, `Text.quote`.
-/
import WireFormat.Text.Printable

namespace WireFormat
namespace Text

/-- A character inside quotes. -/
def escape (c : Char) : List Char :=
  if c = '\x00' then ['\\', '0']
  else if c = '\t' then ['\\', 't']
  else if c = '\r' then ['\\', 'r']
  else if c = '\n' then ['\\', 'n']
  else if c = '"' || c = '\\' then ['\\', c]
  else if isPrintable c then [c]
  else "\\u\x7b".toList ++ Nat.toDigits 16 c.toNat ++ ['\x7d']

/-- A text in quotes. -/
def quote (s : String) : String :=
  String.ofList ('"' :: s.toList.flatMap escape ++ ['"'])

end Text
end WireFormat
