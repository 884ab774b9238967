/-
# Quoted text

How a text is shown inside a message: between double quotes, with the quote and
the backslash escaped, and every character that does not print written as its
code point.
-/

import UnitCalc.Text.Alphabetic

namespace UnitCalc.Text

/-- Controls, format characters, private use, blanks other than the space, and
the combining diacritical marks, beyond ASCII. -/
private def unprintable : Array Span := #[
  (0x7F, 0xA0), (0xAD, 0xAD), (0x300, 0x36F), (0x600, 0x605), (0x61C, 0x61C), (0x6DD, 0x6DD),
  (0x70F, 0x70F), (0x890, 0x891), (0x8E2, 0x8E2), (0x1680, 0x1680), (0x180E, 0x180E),
  (0x2000, 0x200F), (0x2028, 0x202F), (0x205F, 0x2064), (0x2066, 0x206F), (0x3000, 0x3000),
  (0xE000, 0xF8FF), (0xFEFF, 0xFEFF), (0xFFF9, 0xFFFB), (0x110BD, 0x110BD), (0x110CD, 0x110CD),
  (0x13430, 0x1343F), (0x1BCA0, 0x1BCA3), (0x1D173, 0x1D17A), (0xE0001, 0xE0001),
  (0xE0020, 0xE007F), (0xF0000, 0xFFFFD), (0x100000, 0x10FFFD)]

/-- The character as it is written between double quotes. -/
def quoteChar (c : Char) : List Char :=
  if c == '"' then ['\\', '"']
  else if c == '\\' then ['\\', '\\']
  else if c == '\t' then ['\\', 't']
  else if c == '\r' then ['\\', 'r']
  else if c == '\n' then ['\\', 'n']
  else if c.toNat == 0 then ['\\', '0']
  else if c.toNat < 0x20 || inSpans unprintable c.toNat then
    ['\\', 'u', '\x7b'] ++ Nat.toDigits 16 c.toNat ++ ['\x7d']
  else [c]

/-- The text between double quotes. -/
def quote (s : String) : String :=
  String.ofList ('"' :: s.toList.flatMap quoteChar ++ ['"'])

end UnitCalc.Text
