import LibraryHeaders.Json.Draft

/-!
# JSON values

A JSON document with all its strings and numbers read. An object keeps its members in the order
in which they stand, also where a key is repeated.
-/

namespace LibraryHeaders.Json

inductive Value where
  | null
  | bool (b : Bool)
  | number (n : Number)
  | string (s : String)
  | list (items : List Value)
  | object (members : List (String × Value))

namespace Value

mutual

/-- The value of a draft, or the first fault in the order of its text. -/
def ofDraft : Draft → Except Fault Value
  | .null => .ok .null
  | .bool b => .ok (.bool b)
  | .number v => v.map .number
  | .string v => v.map .string
  | .list items cut => do
    let vs ← ofDrafts items
    match cut with
    | some c => .error c.wanted
    | none => .ok (.list vs)
  | .object members cut => do
    let ms ← ofMembers members
    match cut with
    | some c => .error c.wanted
    | none => .ok (.object ms)
  | .brokenString f _ => .error f
  | .broken f _ => .error f
  | .absent f => .error f

def ofDrafts : List Draft → Except Fault (List Value)
  | [] => .ok []
  | d :: ds => do
    let v ← ofDraft d
    let vs ← ofDrafts ds
    return v :: vs

def ofMembers : List (Except Fault String × Draft) → Except Fault (List (String × Value))
  | [] => .ok []
  | (key, d) :: ms => do
    let k ← key
    let v ← ofDraft d
    let vs ← ofMembers ms
    return (k, v) :: vs

end

/-- Reads a text that holds one document. -/
def ofText (s : List Char) : Except Fault Value := do
  let (d, more) := Draft.ofText s
  let v ← ofDraft d
  if more then .error .trailingCharacters else return v

/-- The value of the last member with a key. -/
def get? (v : Value) (key : String) : Option Value :=
  match v with
  | .object ms => (ms.reverse.find? (·.1 == key)).map (·.2)
  | _ => none

end Value

end LibraryHeaders.Json
