import BraceTemplate.Text.Unprintable

/-!
# Quoted texts

A text on one line between double quotes. Line breaks, tabs, quotes and
backslashes are escaped, and unprintable characters are written by their code
point in hexadecimal. Single quotes stand as they are.
-/

namespace BraceTemplate.Text

/-- The escape by code point: lower case, no leading zeros. -/
def codePointEscape (c : Char) : List Char :=
  ['\\', 'u', '{'] ++ Nat.toDigits 16 c.toNat ++ ['}']

/-- How a character is written between quotes. -/
def escape : Char → List Char
  | '\x00' => ['\\', '0']
  | '\t' => ['\\', 't']
  | '\r' => ['\\', 'r']
  | '\n' => ['\\', 'n']
  | '"' => ['\\', '"']
  | '\\' => ['\\', '\\']
  | c => if isUnprintable c then codePointEscape c else [c]

def quote (text : String) : String :=
  String.ofList ('"' :: text.toList.flatMap escape ++ ['"'])

example : quote "it's \"é\"\n" = "\"it's \\\"é\\\"\\n\"" := by decide +kernel

example : quote "\u00ad\u0301\u007f" = "\"\\u\x7bad\x7d\\u\x7b301\x7d\\u\x7b7f\x7d\"" := by
  decide +kernel

end BraceTemplate.Text
