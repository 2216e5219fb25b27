import LibraryHeaders.Resolution

/-!
# Command lines

The arguments of one invocation. An option takes its value from the same argument, behind `=`, or
from the next one, which may then not look like an option. A value counts as given only when the
next argument shows that it is complete; so of two things wrong with a command line an argument that
is unknown is reported before a value that is not valid.
-/

namespace LibraryHeaders

inductive OutputFormat where
  | text
  | json
  deriving DecidableEq, Repr

structure Invocation where
  fileLists : List Path
  extra : ByClass (Option (List String))
  exclude : ByClass (Option (List String))
  umbrella : ByClass (Option String)
  installName : Option String
  plainDylib : Bool
  config : Option Path
  format : Option OutputFormat
  withExcluded : Bool
  debug : Bool
  deriving DecidableEq, Repr

namespace CommandLine

/-- Why a command line is not carried out. -/
inductive Refusal where
  | unknownArgument (argument : String)
  | missingValue (option : String)
  | invalidValue (option : String) (value : String)
  | usedTwice (option : String)
  | unwantedValue (option : String)
  | help
  | version
  deriving DecidableEq, Repr

/-- Options that take a value. -/
inductive Valued where
  | extra (v : Visibility)
  | exclude (v : Visibility)
  | umbrella (v : Visibility)
  | installName
  | config
  | format
  deriving DecidableEq, Repr

inductive Switch where
  | plainDylib
  | withExcluded
  | debug
  | help
  | version
  deriving DecidableEq, Repr

inductive Known where
  | valued (o : Valued)
  | switch (s : Switch)
  deriving DecidableEq, Repr

def Valued.name : Valued → String
  | .extra v => "extra-" ++ v.name ++ "-header"
  | .exclude v => "exclude-" ++ v.name ++ "-header"
  | .umbrella v => v.name ++ "-umbrella-header"
  | .installName => "install-name"
  | .config => "config"
  | .format => "format"

def Switch.name : Switch → String
  | .plainDylib => "dynamiclib"
  | .withExcluded => "include-excluded"
  | .debug => "debug"
  | .help => "help"
  | .version => "version"

def valuedOptions : List Valued :=
  Visibility.concrete.map .extra ++ Visibility.concrete.map .exclude ++
    Visibility.concrete.map .umbrella ++ [.installName, .config, .format]

def switches : List Switch := [.plainDylib, .withExcluded, .debug, .help, .version]

def known? (name : String) : Option Known :=
  match valuedOptions.find? (·.name == name) with
  | some o => some (.valued o)
  | none => (switches.find? (·.name == name)).map .switch

/-- What the last arguments have begun. -/
inductive Pending where
  | nothing
  | option (o : Valued) (value : Option String)
  /-- Operands, in reverse order. -/
  | operands (values : List String)
  deriving DecidableEq, Repr

def start : Invocation :=
  ⟨[], .replicate none, .replicate none, .replicate none, none, false, none, none, false, false⟩

/-- Puts a value behind the others of a list option. -/
def append (t : ByClass (Option (List String))) (v : Visibility) (value : String) :
    ByClass (Option (List String)) :=
  t.modify v fun l => some (l.getD [] ++ [value])

/-- Gives a value to an option that may be used once only. -/
def once {α : Type} (option : String) (old : Option α) (new : Except Refusal α) :
    Except Refusal (Option α) :=
  if old.isSome then .error (.usedTwice option) else new.map some

def pathValue (option value : String) : Except Refusal Path :=
  if value = "" then .error (.invalidValue option value) else .ok (Path.ofString value)

def formatValue (value : String) : Except Refusal OutputFormat :=
  if value = "text" then .ok .text
  else if value = "json" then .ok .json
  else .error (.invalidValue Valued.format.name value)

def find {α : Type} (t : ByClass (Option α)) (v : Visibility) : Option α :=
  match v with
  | .pub => t.pub
  | .priv => t.priv
  | .proj => t.proj
  | .unspecified => none

section Find

variable {α : Type} {t u : ByClass (Option α)} {v w : Visibility}

theorem present_eq (t : ByClass (Option α)) :
    t.present = Visibility.concrete.filterMap fun v => (find t v).map (v, ·) := rfl

theorem find_modify_self (concrete : v ∈ Visibility.concrete) (f : Option α → Option α) :
    find (t.modify v f) v = f (find t v) := by
  cases v with
  | pub | priv | proj => rfl
  | unspecified => exact absurd concrete (by decide)

theorem find_modify_of_ne (other : w ≠ v) (f : Option α → Option α) :
    find (t.modify v f) w = find t w := by
  cases v <;> cases w <;> first | rfl | exact absurd rfl other

theorem eq_of_find (same : ∀ v ∈ Visibility.concrete, find t v = find u v) : t = u := by
  obtain ⟨pub, priv, proj⟩ := t
  obtain ⟨pub', priv', proj'⟩ := u
  obtain rfl : pub = pub' := same .pub (by decide)
  obtain rfl : priv = priv' := same .priv (by decide)
  obtain rfl : proj = proj' := same .proj (by decide)
  rfl

end Find

def store (i : Invocation) (o : Valued) (value : String) : Except Refusal Invocation :=
  match o with
  | .extra v => .ok { i with extra := append i.extra v value }
  | .exclude v => .ok { i with exclude := append i.exclude v value }
  | .umbrella v =>
    (once o.name (find i.umbrella v) (.ok value)).map fun x =>
      { i with umbrella := i.umbrella.modify v fun _ => x }
  | .installName => (once o.name i.installName (.ok value)).map fun x => { i with installName := x }
  | .config =>
    (once o.name i.config (pathValue o.name value)).map fun x => { i with config := x }
  | .format => (once o.name i.format (formatValue value)).map fun x => { i with format := x }

/-- Takes what has been begun as complete. -/
def settle (i : Invocation) : Pending → Except Refusal Invocation
  | .nothing => .ok i
  | .option o none => .error (.missingValue o.name)
  | .option o (some value) => store i o value
  | .operands values => do
    let paths ← values.reverse.mapM (pathValue "FILELIST")
    return { i with fileLists := i.fileLists ++ paths }

def flip (i : Invocation) (s : Switch) : Except Refusal Invocation :=
  let once (old : Bool) (new : Invocation) : Except Refusal Invocation :=
    if old then .error (.usedTwice s.name) else .ok new
  match s with
  | .plainDylib => once i.plainDylib { i with plainDylib := true }
  | .withExcluded => once i.withExcluded { i with withExcluded := true }
  | .debug => once i.debug { i with debug := true }
  | .help => .error .help
  | .version => .error .version

/-- The name of a long option and the value behind `=`, of an argument without its dashes. -/
def splitOption (s : List Char) : String × Option String :=
  let name := s.takeWhile (· != '=')
  match s.drop name.length with
  | _ :: value => (String.ofList name, some (String.ofList value))
  | [] => (String.ofList name, none)

/-- An argument that begins with two dashes. -/
def takeLong (i : Invocation) (pending : Pending) (argument : String) (s : List Char) :
    Except Refusal (Invocation × Pending) :=
  let (name, value) := splitOption s
  match known? name, value with
  | none, _ => .error (.unknownArgument argument)
  | some (.switch s), some _ => .error (.unwantedValue s.name)
  | some (.switch s), none => do
    let i ← flip (← settle i pending) s
    return (i, .nothing)
  | some (.valued o), some value => do
    let i ← store (← settle i pending) o value
    return (i, .nothing)
  | some (.valued o), none => do
    let i ← settle i pending
    return (i, .option o none)

/-- An argument that begins with one dash. -/
def takeShort (i : Invocation) (pending : Pending) (argument : String) (c : Char) :
    Except Refusal (Invocation × Pending) :=
  let switch (s : Switch) : Except Refusal (Invocation × Pending) := do
    let i ← flip (← settle i pending) s
    return (i, .nothing)
  if c = 'h' then switch .help
  else if c = 'V' then switch .version
  else .error (.unknownArgument argument)

def takeOperand (i : Invocation) (pending : Pending) (argument : String) :
    Except Refusal (Invocation × Pending) :=
  match pending with
  | .operands values => .ok (i, .operands (argument :: values))
  | pending => do
    let i ← settle i pending
    return (i, .operands [argument])

/-- An argument that is no option: the value of one, or an operand. -/
def takePlain (i : Invocation) (pending : Pending) (argument : String) :
    Except Refusal (Invocation × Pending) :=
  match pending with
  | .option o none => .ok (i, .option o (some argument))
  | pending => takeOperand i pending argument

def take (i : Invocation) (pending : Pending) (argument : String) :
    Except Refusal (Invocation × Pending) :=
  match argument.toList with
  | '-' :: '-' :: s => takeLong i pending argument s
  | '-' :: c :: _ => takeShort i pending argument c
  | _ => takePlain i pending argument

/-- Behind `--` every argument is an operand. -/
def takeAll (i : Invocation) (pending : Pending) : Bool → List String → Except Refusal Invocation
  | _, [] => settle i pending
  | true, a :: rest => do
    let (i, pending) ← takeOperand i pending a
    takeAll i pending true rest
  | false, a :: rest =>
    if a = "--" then takeAll i pending true rest
    else do
      let (i, pending) ← take i pending a
      takeAll i pending false rest

/-- The invocation that the arguments behind the program's name ask for. -/
def parse (arguments : List String) : Except Refusal Invocation :=
  takeAll start .nothing false arguments

end CommandLine

namespace Invocation

def outputFormat (i : Invocation) : OutputFormat := i.format.getD .text

/-- The context of an invocation: what the command line says goes before the settings. -/
def context (i : Invocation) (config : Config) (fs : FileSystem) : Context :=
  let c := Context.ofConfig config fs
  let c := match i.installName with
    | some name => c.withInstallName name (i.plainDylib || config.plainDylib)
    | none => if i.plainDylib then c.withFramework none else c
  let c := i.extra.present.foldl (fun c e => c.withExtra e.1 e.2) c
  let c := i.exclude.present.foldl (fun c e => c.withExclude e.1 e.2) c
  i.umbrella.present.foldl (fun c e => c.withUmbrella e.1 e.2) c

end Invocation

end LibraryHeaders
