import LibraryHeaders.CommandLine
import LibraryHeaders.FileList
import LibraryHeaders.Report

/-!
# The program

One run of the command-line program, as a function of its arguments and of a file system.
-/

namespace LibraryHeaders.Program

/-- What a run leaves behind. -/
structure Exit where
  code : UInt32
  stdout : String
  stderr : String
  deriving DecidableEq, Repr

def name : String := "headerset"

def version : String := "0.3.1"

def usage : String :=
  "Resolve the header set and umbrella headers of a library\n\n" ++
  "Usage: " ++ name ++ " [OPTIONS] [FILELIST]...\n\n" ++
  "Arguments:\n  [FILELIST]...  JSON header file lists, processed in order\n\n" ++
  "Options:\n" ++
  String.join (CommandLine.valuedOptions.map fun o => "      --" ++ o.name ++ " <VALUE>\n") ++
  String.join (CommandLine.switches.map fun s => "      --" ++ s.name ++ "\n")

/-- The lines of a text, each moved to the right. -/
def indent (s : String) : String :=
  String.intercalate "\n" ((Text.split '\n' s.toList).map fun line => "    " ++ String.ofList line)

/-- A run that fails says what it was doing, and why that failed. -/
def failed (warnings : List Warning) (summary cause : String) : Exit :=
  ⟨1, "", String.join (warnings.map fun w => "warning: " ++ w.message ++ "\n") ++
    "Error: " ++ summary ++ "\n\nCaused by:\n" ++ indent cause ++ "\n"⟩

/-- Why a settings file failed. -/
def configCause : Config.Fault → String
  | .unreadable fault => fault.message
  | .malformed => "TOML parse error"
  | .mismatch m => "TOML parse error: " ++ m.message
  | .blank b => b.message

def refusalText : CommandLine.Refusal → String
  | .unknownArgument a => "unexpected argument '" ++ a ++ "' found"
  | .missingValue o => "a value is required for '--" ++ o ++ "' but none was supplied"
  | .invalidValue o v => "invalid value '" ++ v ++ "' for '" ++ o ++ "'"
  | .usedTwice o => "the argument '--" ++ o ++ "' cannot be used multiple times"
  | .unwantedValue o => "unexpected value for '--" ++ o ++ "' found; no more were expected"
  | .help => ""
  | .version => ""

/-- A command line that is not carried out. -/
def refused : CommandLine.Refusal → Exit
  | .help => ⟨0, usage, ""⟩
  | .version => ⟨0, name ++ " " ++ version ++ "\n", ""⟩
  | r => ⟨2, "", "error: " ++ refusalText r ++ "\n\nFor more information, try '--help'.\n"⟩

/-- The output of a resolution. -/
def render (i : Invocation) (framework : Option String) (r : Resolution) : String :=
  match i.outputFormat with
  | .text => Report.text r i.withExcluded
  | .json => Report.json r framework ++ "\n"

/-- Resolves the headers of an invocation with given settings. -/
def resolve (fs : FileSystem) (i : Invocation) (config : Config) (base : List Header) : Exit :=
  let context := i.context config fs
  match context.resolve base with
  | .error f => failed f.warnings f.message f.problem.message
  | .ok r =>
    ⟨0, render i context.framework r,
      String.join (r.warnings.map fun w => "warning: " ++ w.message ++ "\n")⟩

/-- The settings of an invocation. -/
def loadConfig (fs : FileSystem) (i : Invocation) : Except (Path × Config.Fault) Config :=
  match i.config with
  | none => .ok .empty
  | some path => (Config.load fs path).mapError (path, ·)

def run (fs : FileSystem) (arguments : List String) : Exit :=
  match CommandLine.parse arguments with
  | .error r => refused r
  | .ok i =>
    match loadConfig fs i with
    | .error (path, f) => failed [] (f.summary path) (configCause f)
    | .ok config =>
      match FileList.load fs i.fileLists with
      | .error e => failed [] "Failed to load header file lists" e.message
      | .ok base => resolve fs i config base

/-! ## What a run asks of its file system -/

/-- The files that a run reads. -/
def inputs (arguments : List String) : List Path :=
  match CommandLine.parse arguments with
  | .error _ => []
  | .ok i => i.config.toList ++ i.fileLists

/-- The entries that a run expands and the headers that it compares with them. A run that fails
before it comes to them has none. -/
def places (fs : FileSystem) (arguments : List String) : List Path × List Path :=
  match CommandLine.parse arguments with
  | .error _ => ([], [])
  | .ok i =>
    match loadConfig fs i, FileList.load fs i.fileLists with
    | .ok config, .ok base =>
      let context := i.context config fs
      ((context.extra.list ++ context.exclude.list).map fun d => Path.ofString d.pattern,
        base.map Header.path)
    | _, _ => ([], [])

end LibraryHeaders.Program
