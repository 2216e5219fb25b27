import LibraryHeaders.Json.Value

/-!
# Writing JSON

Two layouts of a value: on one line, and with one item or member a line, two spaces a level. A
string escapes the quote, the backslash and the characters below U+0020, and nothing else.
-/

namespace LibraryHeaders.Json

namespace Printer

def hexDigit (n : Nat) : Char := (Nat.digitChar n)

/-- A character as it stands between quotes. -/
def escape (c : Char) : List Char :=
  match c with
  | '"' => ['\\', '"']
  | '\\' => ['\\', '\\']
  | '\x08' => ['\\', 'b']
  | '\x0c' => ['\\', 'f']
  | '\n' => ['\\', 'n']
  | '\r' => ['\\', 'r']
  | '\t' => ['\\', 't']
  | c =>
    if c.toNat < 0x20 then
      ['\\', 'u', '0', '0', hexDigit (c.toNat / 16), hexDigit (c.toNat % 16)]
    else [c]

def quote (s : String) : List Char := '"' :: (s.toList.flatMap escape ++ ['"'])

def number : Number → List Char
  | .integer n => (toString n).toList
  | .real d => (d.render Number.style).toList

mutual

/-- The value on one line, without spaces. -/
def compact : Value → List Char
  | .null => ['n', 'u', 'l', 'l']
  | .bool true => ['t', 'r', 'u', 'e']
  | .bool false => ['f', 'a', 'l', 's', 'e']
  | .number n => number n
  | .string s => quote s
  | .list vs => '[' :: (compactItems vs ++ [']'])
  | .object ms => '{' :: (compactMembers ms ++ ['}'])

def compactItems : List Value → List Char
  | [] => []
  | [v] => compact v
  | v :: vs => compact v ++ ',' :: compactItems vs

def compactMembers : List (String × Value) → List Char
  | [] => []
  | [(k, v)] => quote k ++ ':' :: compact v
  | (k, v) :: ms => quote k ++ ':' :: (compact v ++ ',' :: compactMembers ms)

end

/-- A line break and the indentation of a level. -/
def line (level : Nat) : List Char := '\n' :: List.replicate (2 * level) ' '

mutual

/-- The value over several lines, where its first line is already indented. -/
def pretty (level : Nat) : Value → List Char
  | .null => ['n', 'u', 'l', 'l']
  | .bool true => ['t', 'r', 'u', 'e']
  | .bool false => ['f', 'a', 'l', 's', 'e']
  | .number n => number n
  | .string s => quote s
  | .list [] => ['[', ']']
  | .list (v :: vs) =>
    '[' :: (line (level + 1) ++ pretty (level + 1) v ++ prettyItems (level + 1) vs ++ line level ++ [']'])
  | .object [] => ['{', '}']
  | .object ((k, v) :: ms) =>
    '{' :: (line (level + 1) ++ quote k ++ ':' :: ' ' :: pretty (level + 1) v ++
      prettyMembers (level + 1) ms ++ line level ++ ['}'])

/-- The items behind the first. -/
def prettyItems (level : Nat) : List Value → List Char
  | [] => []
  | v :: vs => ',' :: (line level ++ pretty level v ++ prettyItems level vs)

/-- The members behind the first. -/
def prettyMembers (level : Nat) : List (String × Value) → List Char
  | [] => []
  | (k, v) :: ms =>
    ',' :: (line level ++ quote k ++ ':' :: ' ' :: pretty level v ++ prettyMembers level ms)

end

end Printer

def Value.compact (v : Value) : String := String.ofList (Printer.compact v)

def Value.pretty (v : Value) : String := String.ofList (Printer.pretty 0 v)

end LibraryHeaders.Json
