import LibraryHeaders.Json.Token

/-!
# JSON drafts

A draft is a JSON document as far as its text is well formed. Reading stops at the first fault
that even a reader who passes over the value would find; the containers that are open at that point
are cut short there. A consumer works through a draft in the order of the text, so the first thing
that is wrong with a text, be it its form or its content, is the first that the consumer meets.

The reader is a machine with a stack: it takes one token at a time, and a frame of the stack holds
what has been read of a container while one of its values is being read.
-/

namespace LibraryHeaders.Json

/-- What can be told from the first token of a value. -/
inductive Head where
  | null
  | bool (b : Bool)
  | number (value : Except Fault Number)
  | string (value : Except Fault String)
  | list
  | object
  | broken (wanted : Fault)

/-- Why a list stops without being closed. -/
inductive ListCut where
  /-- The text ends where a comma or the end of the list should stand. -/
  | endOfText
  /-- Something else stands there. -/
  | noComma
  /-- The text ends behind a comma. -/
  | endAfterComma
  /-- The list is closed behind a comma. -/
  | closedAfterComma
  /-- The last item is cut short itself. -/
  | inside (skipped : Fault)
  deriving DecidableEq, Repr

/-- Why an object stops without being closed. -/
inductive ObjectCut where
  /-- The text ends where a key, a comma or the end of the object should stand. -/
  | endOfText
  /-- Something that is no string stands in place of the first key. -/
  | badKey
  /-- A key is not well formed. -/
  | brokenKey (wanted skipped : Fault)
  /-- Something else stands in place of a comma or of the end. -/
  | noComma
  /-- The text ends behind a comma. -/
  | endAfterComma
  /-- The object is closed behind a comma. -/
  | closedAfterComma
  /-- Something that is no string stands behind a comma. -/
  | noKeyAfterComma
  /-- The last value is cut short itself. -/
  | inside (skipped : Fault)
  deriving DecidableEq, Repr

namespace ListCut

/-- The fault where a further item, or the end of the list, is wanted. -/
def wanted : ListCut → Fault
  | endOfText => .endInList
  | noComma => .noCommaInList
  | endAfterComma => .endInValue
  | closedAfterComma => .trailingComma
  | inside f => f

/-- The fault where only the end of the list is wanted. -/
def unwanted : ListCut → Fault
  | endOfText => .endInList
  | closedAfterComma => .trailingComma
  | noComma => .trailingCharacters
  | endAfterComma => .trailingCharacters
  | inside _ => .trailingCharacters

/-- The fault for a reader who passes over the list. -/
def skipped : ListCut → Fault
  | endOfText => .endInList
  | noComma => .noCommaInList
  | endAfterComma => .endInValue
  | closedAfterComma => .noValue
  | inside f => f

end ListCut

namespace ObjectCut

/-- The fault where a further member, or the end of the object, is wanted. -/
def wanted : ObjectCut → Fault
  | endOfText => .endInObject
  | badKey => .keyNotString
  | brokenKey f _ => f
  | noComma => .noCommaInObject
  | endAfterComma => .endInValue
  | closedAfterComma => .trailingComma
  | noKeyAfterComma => .keyNotString
  | inside f => f

/-- The fault for a reader who passes over the object. -/
def skipped : ObjectCut → Fault
  | endOfText => .endInObject
  | badKey => .keyNotString
  | brokenKey _ f => f
  | noComma => .noCommaInObject
  | endAfterComma => .endInObject
  | closedAfterComma => .keyNotString
  | noKeyAfterComma => .keyNotString
  | inside f => f

end ObjectCut

inductive Draft where
  | null
  | bool (b : Bool)
  | number (value : Except Fault Number)
  | string (value : Except Fault String)
  | list (items : List Draft) (cut : Option ListCut)
  | object (members : List (Except Fault String × Draft)) (cut : Option ObjectCut)
  /-- A string that is not well formed. -/
  | brokenString (wanted skipped : Fault)
  /-- Something else that is no value. -/
  | broken (wanted skipped : Fault)
  /-- Nothing stands where the value should. -/
  | absent (fault : Fault)

namespace Draft

abbrev Member := Except Fault String × Draft

def head : Draft → Head
  | null => .null
  | bool b => .bool b
  | number v => .number v
  | string v => .string v
  | list _ _ => .list
  | object _ _ => .object
  | brokenString f _ => .broken f
  | broken f _ => .broken f
  | absent f => .broken f

/-- What a reader finds wrong who only passes over the value. -/
def skipFault? : Draft → Option Fault
  | list _ (some c) => some c.skipped
  | object _ (some c) => some c.skipped
  | brokenString _ f => some f
  | broken _ f => some f
  | absent f => some f
  | _ => none

/-- A container one of whose values is being read; what stands before that value is in reverse
order. -/
inductive Frame where
  | item (before : List Draft)
  | member (before : List Member) (key : Except Fault String)

/-- What the machine waits for. -/
inductive Mode where
  | value
  | listStart
  | listNext (before : List Draft)
  | listComma (before : List Draft)
  | objectStart
  | objectNext (before : List Member)
  | objectComma (before : List Member)
  | colon (before : List Member) (key : Except Fault String)

inductive Step where
  | more (mode : Mode) (stack : List Frame)
  | done (d : Draft)
  | stopped (d : Draft)

/-- A value is complete: the container around it goes on. -/
def complete (d : Draft) : List Frame → Step
  | [] => .done d
  | .item before :: stack => .more (.listNext (d :: before)) stack
  | .member before key :: stack => .more (.objectNext ((key, d) :: before)) stack

/-- A value is cut short: so are all containers around it. -/
def cutShort (f : Fault) : Draft → List Frame → Draft
  | d, [] => d
  | d, .item before :: stack =>
    cutShort f (.list (d :: before).reverse (some (.inside f))) stack
  | d, .member before key :: stack =>
    cutShort f (.object ((key, d) :: before).reverse (some (.inside f))) stack

def stopValue (wanted skipped : Fault) (stack : List Frame) : Draft :=
  cutShort skipped (.broken wanted skipped) stack

def stopString (wanted skipped : Fault) (stack : List Frame) : Draft :=
  cutShort skipped (.brokenString wanted skipped) stack

def stopBefore (fault : Fault) (stack : List Frame) : Draft :=
  cutShort fault (.absent fault) stack

def stopList (before : List Draft) (c : ListCut) (stack : List Frame) : Draft :=
  cutShort c.skipped (.list before.reverse (some c)) stack

def stopObject (before : List Member) (c : ObjectCut) (stack : List Frame) : Draft :=
  cutShort c.skipped (.object before.reverse (some c)) stack

/-- A token where a value is wanted. -/
def stepValue (stack : List Frame) : Token → Step
  | .null => complete .null stack
  | .bool b => complete (.bool b) stack
  | .number v => complete (.number v) stack
  | .string v => complete (.string v) stack
  | .openList => .more .listStart stack
  | .openObject => .more .objectStart stack
  | .broken w f => .stopped (stopValue w f stack)
  | .brokenString w f => .stopped (stopString w f stack)
  | .closeList => .stopped (stopValue .noValue .noValue stack)
  | .closeObject => .stopped (stopValue .noValue .noValue stack)
  | .comma => .stopped (stopValue .noValue .noValue stack)
  | .colon => .stopped (stopValue .noValue .noValue stack)
  | .stray => .stopped (stopValue .noValue .noValue stack)

def step (mode : Mode) (stack : List Frame) (t : Token) : Step :=
  match mode with
  | .value => stepValue stack t
  | .listStart =>
    match t with
    | .closeList => complete (.list [] none) stack
    | t => stepValue (.item [] :: stack) t
  | .listNext before =>
    match t with
    | .closeList => complete (.list before.reverse none) stack
    | .comma => .more (.listComma before) stack
    | _ => .stopped (stopList before .noComma stack)
  | .listComma before =>
    match t with
    | .closeList => .stopped (stopList before .closedAfterComma stack)
    | t => stepValue (.item before :: stack) t
  | .objectStart =>
    match t with
    | .closeObject => complete (.object [] none) stack
    | .string key => .more (.colon [] key) stack
    | .brokenString w f => .stopped (stopObject [] (.brokenKey w f) stack)
    | _ => .stopped (stopObject [] .badKey stack)
  | .objectNext before =>
    match t with
    | .closeObject => complete (.object before.reverse none) stack
    | .comma => .more (.objectComma before) stack
    | _ => .stopped (stopObject before .noComma stack)
  | .objectComma before =>
    match t with
    | .string key => .more (.colon before key) stack
    | .brokenString w f => .stopped (stopObject before (.brokenKey w f) stack)
    | .closeObject => .stopped (stopObject before .closedAfterComma stack)
    | _ => .stopped (stopObject before .noKeyAfterComma stack)
  | .colon before key =>
    match t with
    | .colon => .more .value (.member before key :: stack)
    | _ => .stopped (stopBefore .noColon (.member before key :: stack))

/-- The text ends before the document does. -/
def endOfText (mode : Mode) (stack : List Frame) : Draft :=
  match mode with
  | .value => stopBefore .endInValue stack
  | .listStart => stopList [] .endOfText stack
  | .listNext before => stopList before .endOfText stack
  | .listComma before => stopList before .endAfterComma stack
  | .objectStart => stopObject [] .endOfText stack
  | .objectNext before => stopObject before .endOfText stack
  | .objectComma before => stopObject before .endAfterComma stack
  | .colon before key => stopBefore .endInObject (.member before key :: stack)

/-- Runs the machine, and tells whether tokens are left behind a complete document. -/
def run (mode : Mode) (stack : List Frame) : List Token → Draft × Bool
  | [] => (endOfText mode stack, false)
  | t :: ts =>
    match step mode stack t with
    | .more mode stack => run mode stack ts
    | .done d => (d, !ts.isEmpty)
    | .stopped d => (d, false)

/-- The draft of a text, and whether more text follows a complete document. -/
def ofText (s : List Char) : Draft × Bool := run .value [] (Token.ofText s)

end Draft

end LibraryHeaders.Json
