import Script.Text.Unprintable

/-!
# Quoted text

A string is shown between double quotes. The quote, the backslash and four controls are written
with a backslash and one letter; every other unprintable character is written by its number, as
`\u{…}` with the fewest lower-case hexadecimal digits; all else stands for itself.
-/

namespace Script.Text

/-- The letter of a character that is written with a backslash and one letter. -/
def escapeLetter? : Char → Option Char
  | '"' => some '"'
  | '\\' => some '\\'
  | '\n' => some 'n'
  | '\t' => some 't'
  | '\r' => some 'r'
  | '\x00' => some '0'
  | _ => none

/-- One character inside quotes. -/
def quoteChar (c : Char) : List Char :=
  match escapeLetter? c with
  | some letter => ['\\', letter]
  | none =>
    if isUnprintable c then
      ['\\', 'u', '\x7b'] ++ Nat.toDigits 16 c.toNat ++ ['\x7d']
    else [c]

/-- A text between quotes. -/
def quoteChars (cs : List Char) : List Char :=
  '"' :: (cs.flatMap quoteChar ++ ['"'])

/-- A string between quotes. -/
def quote (s : String) : String :=
  String.ofList (quoteChars s.toList)

end Script.Text
