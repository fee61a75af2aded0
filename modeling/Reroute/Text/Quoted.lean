import Reroute.Text.Hex
/-!
# Quoted strings

A string in double quotes, with the quote, the backslash, the usual
control characters and the characters that have no shape of their own
(as far as `invisible` lists them) written as an escape. An apostrophe needs no escape between double quotes.
-/

namespace Reroute.Text

/-- Ranges of characters that are not shown as they are: controls, blanks
other than the space, format characters, marks that attach to the character
before them, and private use. The list leaves out most of the marks that belong
to one script, such as U+0941, and the characters below U+E0000 that are not
assigned, such as U+0378: they are shown as themselves, although they have no
shape of their own either. -/
def invisible : List (Nat × Nat) :=
  [(0x00, 0x1F), (0x7F, 0xA0), (0xAD, 0xAD), (0x300, 0x36F), (0x483, 0x489), (0x591, 0x5BD),
   (0x600, 0x605), (0x610, 0x61A), (0x61C, 0x61C), (0x64B, 0x65F), (0x6DD, 0x6DD),
   (0x70F, 0x70F), (0x890, 0x891), (0x8E2, 0x8E2), (0x1680, 0x1680), (0x180B, 0x180E),
   (0x1AB0, 0x1ACE), (0x1DC0, 0x1DFF), (0x2000, 0x200F), (0x2028, 0x202F), (0x205F, 0x206F),
   (0x20D0, 0x20F0), (0x3000, 0x3000), (0xE000, 0xF8FF), (0xFE00, 0xFE0F), (0xFE20, 0xFE2F),
   (0xFEFF, 0xFEFF), (0xFFF0, 0xFFFB), (0xFFFE, 0xFFFF), (0x110BD, 0x110BD),
   (0x110CD, 0x110CD), (0x13430, 0x1343F), (0x1BCA0, 0x1BCA3), (0x1D173, 0x1D17A),
   (0xE0000, 0x10FFFF)]

/-- Whether a character is shown as itself. -/
def isVisible (c : Char) : Bool :=
  !invisible.any fun range => range.1 ≤ c.toNat && c.toNat ≤ range.2

/-- What stands for a character between double quotes. -/
def escapeChar (c : Char) : List Char :=
  match c with
  | '"' => ['\\', '"']
  | '\\' => ['\\', '\\']
  | '\n' => ['\\', 'n']
  | '\r' => ['\\', 'r']
  | '\t' => ['\\', 't']
  | _ =>
    if c.toNat = 0 then ['\\', '0']
    else if isVisible c then [c]
    else ['\\', 'u', '\x7b'] ++ Nat.toDigits 16 c.toNat ++ ['\x7d']

/-- A string between double quotes. -/
def quote (text : String) : String :=
  String.ofList ('"' :: text.toList.flatMap escapeChar ++ ['"'])

end Reroute.Text
