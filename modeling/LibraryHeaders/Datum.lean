import LibraryHeaders.Json.Value
import LibraryHeaders.Shape
import LibraryHeaders.Visibility

/-!
# Settings data

What JSON and TOML documents have in common: scalars, lists, and tables whose members are visited in
a fixed order. The members of a JSON object are visited in the order of their keys, and of members
with one key the last one counts.
-/

namespace LibraryHeaders

inductive Datum where
  | null
  | bool (b : Bool)
  | integer (n : Int)
  /-- A number in double precision, as it is written. -/
  | real (text : String)
  | string (s : String)
  | list (items : List Datum)
  | table (members : List (String × Datum))

namespace Datum

def found : Datum → Found
  | null => .null
  | bool b => .bool b
  | integer n => .integer n
  | real t => .real t
  | string s => .string s
  | list _ => .list
  | table _ => .table

/-- Puts a member in the order of the keys; a member with the same key gives way. -/
def insertMember (k : String) (d : Datum) : List (String × Datum) → List (String × Datum)
  | [] => [(k, d)]
  | (k', d') :: ms =>
    if k = k' then (k, d) :: ms
    else if k < k' then (k, d) :: (k', d') :: ms
    else (k', d') :: insertMember k d ms

mutual

def ofJson : Json.Value → Datum
  | .null => .null
  | .bool b => .bool b
  | .number (.integer n) => .integer n
  | .number (.real x) => .real (x.render Json.Number.style)
  | .string s => .string s
  | .list vs => .list (ofJsonItems vs)
  | .object ms => .table (ofJsonMembers [] ms)

def ofJsonItems : List Json.Value → List Datum
  | [] => []
  | v :: vs => ofJson v :: ofJsonItems vs

def ofJsonMembers (done : List (String × Datum)) : List (String × Json.Value) → List (String × Datum)
  | [] => done
  | (k, v) :: ms => ofJsonMembers (insertMember k (ofJson v) done) ms

end

/-- How strictly a list may stand for a record. -/
inductive Fields where
  /-- The list may not be longer than the record. -/
  | exact
  /-- What the list has beyond the fields of the record is passed over. -/
  | atLeast
  deriving DecidableEq, Repr

abbrev Reader (α : Type) := Datum → Except Mismatch α

def readString : Reader String
  | string s => .ok s
  | d => .error (.wrongType d.found .string)

def readBool : Reader Bool
  | bool b => .ok b
  | d => .error (.wrongType d.found .bool)

def readList {α : Type} (item : Reader α) : Reader (List α)
  | list items => items.mapM item
  | d => .error (.wrongType d.found .list)

/-- Null stands for nothing. -/
def readOption {α : Type} (reader : Reader α) : Reader (Option α)
  | null => .ok none
  | d => (reader d).map some

/-- Fields of a record: their names, and how each changes the record. -/
abbrev RecordFields (α : Type) := List (String × (α → Datum → Except Mismatch α))

/-- Reads members by their keys. -/
def readMembers {α : Type} (fields : RecordFields α) : α → List (String × Datum) → Except Mismatch α
  | a, [] => .ok a
  | a, (k, d) :: ms =>
    match fields.find? (·.1 == k) with
    | none => .error (.unknownField k (fields.map (·.1)))
    | some field => do readMembers fields (← field.2 a d) ms

/-- Reads items by their places; fields without an item keep their defaults. -/
def readPlaces {α : Type} : RecordFields α → α → List Datum → Except Mismatch (α × List Datum)
  | field :: fields, a, d :: ds => do readPlaces fields (← field.2 a d) ds
  | _, a, ds => .ok (a, ds)

/-- Reads a record from a table or from a list. -/
def readRecord {α : Type} (strict : Fields) (wanted : Wanted) (fields : RecordFields α)
    (default : α) : Reader α
  | table members => readMembers fields default members
  | list items => do
    let (a, rest) ← readPlaces fields default items
    if strict = .exact ∧ !rest.isEmpty then .error (.tooLong items.length) else return a
  | d => .error (.wrongType d.found wanted)

end Datum

namespace Visibility

/-- The words for all classes. -/
def words : List String := all.map name

def ofWord (word : String) : Except Mismatch Visibility :=
  match ofName? word with
  | some v => .ok v
  | none => .error (.unknownWord word words)

/-- A class is its name, or a table with the name as its one key and null as the value. -/
def ofDatum : Datum → Except Mismatch Visibility
  | .string s => ofWord s
  | .table [(k, d)] => do
    let v ← ofWord k
    match d with
    | .null => return v
    | d => .error (.wrongType d.found .unit)
  | .table _ => .error .notOneKey
  | d => .error (.wrongType d.found .classWord)

end Visibility

end LibraryHeaders
