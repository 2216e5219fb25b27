import LibraryHeaders.Config
import LibraryHeaders.Exclusion
import LibraryHeaders.Extras
import LibraryHeaders.InstallName
import LibraryHeaders.Umbrella

/-!
# Resolution

From the headers of the file lists to the header set of a library: directories among the directives
are expanded, extra headers are added, exclusions are flagged, and umbrella headers are designated.
The first stage that fails ends the resolution, and the header sequence is handed back as that stage
left it.
-/

namespace LibraryHeaders

inductive Stage where
  | directives
  | build
  | exclude
  | umbrella
  deriving DecidableEq, Repr

def Stage.name : Stage → String
  | .directives => "directives"
  | .build => "build"
  | .exclude => "exclude"
  | .umbrella => "umbrella"

structure Resolution where
  headers : List Header
  warnings : List Warning
  deriving DecidableEq, Repr

namespace Resolution

/-- The headers that a client should use. -/
def included (r : Resolution) : List Header := r.headers.filter fun h => !h.isExcluded

/-- The umbrella header of a class. -/
def umbrella? (r : Resolution) (v : Visibility) : Option Header :=
  r.headers.find? fun h => h.isUmbrella && h.visibility == v

end Resolution

/-- A resolution that ended early. -/
structure Failure where
  problem : Problem
  stage : Stage
  headers : List Header
  warnings : List Warning
  deriving DecidableEq, Repr

def Failure.message (f : Failure) : String :=
  f.stage.name ++ " stage failed: " ++ f.problem.message

/-- All that decides how a header sequence is resolved. -/
structure Context where
  fs : FileSystem
  namer : IncludeNamer
  framework : Option String
  extra : Directives
  exclude : Directives
  umbrella : Visibility → Option String

namespace Context

def ofFileSystem (fs : FileSystem) : Context :=
  ⟨fs, IncludeName.conventional, none, .empty, .empty, fun _ => none⟩

/-- The lists of settings are defaults. -/
def seedAll (d : Directives) (lists : List (Visibility × List String)) : Directives :=
  lists.foldl (fun d e => d.seed e.1 e.2) d

def putAll (f : Visibility → Option String) (paths : List (Visibility × String)) :
    Visibility → Option String :=
  paths.foldl (fun f e => Directives.put f e.1 e.2) f

def ofConfig (c : Config) (fs : FileSystem) : Context :=
  { ofFileSystem fs with
    framework := c.installName.bind (InstallName.framework? · c.plainDylib)
    extra := seedAll .empty c.extra.present
    exclude := seedAll .empty c.exclude.present
    umbrella := putAll (fun _ => none) c.umbrella.present }

/-- An empty framework name stands for none. -/
def withFramework (c : Context) (name : Option String) : Context :=
  { c with framework := name.filter (· ≠ "") }

def withInstallName (c : Context) (name : String) (plainDylib : Bool) : Context :=
  { c with framework := InstallName.framework? name plainDylib }

def withNamer (c : Context) (namer : IncludeNamer) : Context := { c with namer }

def withExtra (c : Context) (v : Visibility) (entries : List String) : Context :=
  { c with extra := c.extra.set v entries }

def withExclude (c : Context) (v : Visibility) (entries : List String) : Context :=
  { c with exclude := c.exclude.set v entries }

def withUmbrella (c : Context) (v : Visibility) (path : String) : Context :=
  { c with umbrella := Directives.put c.umbrella v path }

/-- The resolution of a header sequence. -/
def resolve (c : Context) (base : List Header) : Except Failure Resolution :=
  match c.extra.expand c.fs with
  | .error e => .error ⟨e, .directives, base, []⟩
  | .ok extra =>
    match c.exclude.expand c.fs with
    | .error e => .error ⟨e, .directives, base, []⟩
    | .ok exclude =>
      match Extras.append c.fs c.namer extra base with
      | (built, .error e) => .error ⟨e, .build, built, []⟩
      | (built, .ok ()) =>
        match Exclusion.apply c.fs exclude.list built with
        | (flagged, .error e) => .error ⟨e, .exclude, flagged, []⟩
        | (flagged, .ok warnings) =>
          match Umbrella.resolve c.framework c.umbrella flagged with
          | (final, .error e) => .error ⟨e, .umbrella, final, warnings⟩
          | (final, .ok _) => .ok ⟨final, warnings⟩

end Context

end LibraryHeaders
