import LibraryHeaders.Text.Unprintable

/-!
# Quoted text in messages

A message shows a text between quotes: the quote, the backslash, line breaks, tabs and NUL are
escaped, and a character that does not print is shown by its code.
-/

namespace LibraryHeaders.Text

def showChar (c : Char) : List Char :=
  match c with
  | '"' => ['\\', '"']
  | '\\' => ['\\', '\\']
  | '\n' => ['\\', 'n']
  | '\r' => ['\\', 'r']
  | '\t' => ['\\', 't']
  | '\x00' => ['\\', '0']
  | c =>
    if isUnprintable c then '\\' :: 'u' :: '{' :: (Nat.toDigits 16 c.toNat ++ ['}'])
    else [c]

def quoted (s : String) : String := String.ofList ('"' :: (s.toList.flatMap showChar ++ ['"']))

end LibraryHeaders.Text
