import LibraryHeaders.FileSystem.Table
import LibraryHeaders.Program
import LibraryHeaders.Proofs.Stages

/-!
# The command line before the settings

What the command line says goes before the settings file, class by class: a list that is given, even
an empty one, stands in the place of the default list, and a class without one keeps its default.
`Invocation.merged` writes both into one settings file. A context keeps explicit lists and defaults
apart, but a resolution asks only for the list that is given in the end, so it cannot tell the
command line over a settings file from the one file that says the same.
-/

namespace LibraryHeaders

open CommandLine (find)

namespace ByClass

variable {α : Type}

/-- The entries of a table, and those of another one for the classes that it has none for. -/
def orElse (t u : ByClass (Option α)) : ByClass (Option α) :=
  ⟨t.pub.or u.pub, t.priv.or u.priv, t.proj.or u.proj⟩

theorem find_orElse (t u : ByClass (Option α)) (v : Visibility) :
    find (t.orElse u) v = (find t v).or (find u v) := by
  cases v <;> rfl

/-- The entries of a table go before those that they are put over. -/
theorem foldl_put (t : ByClass (Option α)) (f : Visibility → Option α) :
    t.present.foldl (fun f e => Directives.put f e.1 e.2) f = fun v => (find t v).or (f v) := by
  obtain ⟨pub, priv, proj⟩ := t
  funext v
  cases pub <;> cases priv <;> cases proj <;> cases v <;> rfl

end ByClass

namespace Directives

variable {d d' : Directives}

/-- The list that is given for a class, if there is one. -/
def given (d : Directives) (v : Visibility) : Option (List String) :=
  (d.explicit v).or (d.defaults v)

theorem effective_eq (d : Directives) : d.effective = fun v => (d.given v).getD [] := rfl

theorem classes_eq (d : Directives) :
    d.classes = Visibility.all.filter fun v => (d.given v).isSome := by
  simp only [classes, given, Option.isSome_or]

/-- Whether a list is explicit or a default makes no difference to the expansion. -/
theorem expand_congr (same : d.given = d'.given) (fs : FileSystem) :
    d.expand fs = d'.expand fs := by
  simp only [expand_eq, list, classes_eq, effective_eq, same]

theorem seedAll_eq (d : Directives) (lists : List (Visibility × List String)) :
    Context.seedAll d lists =
      ⟨lists.foldl (fun f e => put f e.1 e.2) d.defaults, d.explicit⟩ :=
  List.foldl_hom (fun f => Directives.mk f d.explicit) fun _ _ => rfl

end Directives

/-- The framework that the settings tell. -/
def Config.framework? (c : Config) : Option String :=
  c.installName.bind (InstallName.framework? · c.plainDylib)

namespace Context

variable (c : Context)

theorem foldl_withExtra (lists : List (Visibility × List String)) :
    lists.foldl (fun c e => c.withExtra e.1 e.2) c =
      { c with extra := ⟨c.extra.defaults,
          lists.foldl (fun f e => Directives.put f e.1 e.2) c.extra.explicit⟩ } :=
  List.foldl_hom (fun f => { c with extra := ⟨c.extra.defaults, f⟩ }) fun _ _ => rfl

theorem foldl_withExclude (lists : List (Visibility × List String)) :
    lists.foldl (fun c e => c.withExclude e.1 e.2) c =
      { c with exclude := ⟨c.exclude.defaults,
          lists.foldl (fun f e => Directives.put f e.1 e.2) c.exclude.explicit⟩ } :=
  List.foldl_hom (fun f => { c with exclude := ⟨c.exclude.defaults, f⟩ }) fun _ _ => rfl

theorem foldl_withUmbrella (paths : List (Visibility × String)) :
    paths.foldl (fun c e => c.withUmbrella e.1 e.2) c =
      { c with umbrella := paths.foldl (fun f e => Directives.put f e.1 e.2) c.umbrella } :=
  List.foldl_hom (fun f => { c with umbrella := f }) fun _ _ => rfl

/-- The settings alone: all lists are defaults. -/
theorem ofConfig_eq (config : Config) (fs : FileSystem) :
    ofConfig config fs =
      { ofFileSystem fs with
        framework := config.framework?
        extra := ⟨find config.extra, fun _ => none⟩
        exclude := ⟨find config.exclude, fun _ => none⟩
        umbrella := find config.umbrella } := by
  simp only [ofConfig, Directives.seedAll_eq, putAll, ByClass.foldl_put, Directives.empty,
    Option.or_none, Config.framework?]

/-- A resolution asks only for what the lists expand to. -/
theorem resolve_congr {c c' : Context} (fs : c.fs = c'.fs) (namer : c.namer = c'.namer)
    (framework : c.framework = c'.framework) (extra : c.extra.given = c'.extra.given)
    (exclude : c.exclude.given = c'.exclude.given) (umbrella : c.umbrella = c'.umbrella)
    (base : List Header) : c.resolve base = c'.resolve base := by
  simp only [resolve, fs, namer, framework, umbrella, Directives.expand_congr extra,
    Directives.expand_congr exclude]

end Context

namespace Invocation

/-- The settings that say what the command line says over some settings. -/
def merged (i : Invocation) (config : Config) : Config where
  installName := i.installName.or config.installName
  plainDylib := i.plainDylib || config.plainDylib
  extra := i.extra.orElse config.extra
  exclude := i.exclude.orElse config.exclude
  umbrella := i.umbrella.orElse config.umbrella

/-- An install name on the command line tells the framework; without one, the library is in none if
the command line says that it is a plain dynamic library. -/
theorem framework_merged (i : Invocation) (config : Config) :
    (match i.installName with
      | some name => InstallName.framework? name (i.plainDylib || config.plainDylib)
      | none => if i.plainDylib then none else config.framework?) =
      (i.merged config).framework? := by
  rw [Config.framework?, Config.framework?, merged]
  cases i.installName with
  | some name => rfl
  | none =>
    cases i.plainDylib with
    | false => rfl
    | true =>
      -- a plain dynamic library is in no framework, whatever its name
      cases config.installName <;> rfl

/-- The command line gives explicit lists beside the defaults of the settings. -/
theorem context_eq (i : Invocation) (config : Config) (fs : FileSystem) :
    i.context config fs =
      { Context.ofFileSystem fs with
        framework := (i.merged config).framework?
        extra := ⟨find config.extra, find i.extra⟩
        exclude := ⟨find config.exclude, find i.exclude⟩
        umbrella := fun v => (find i.umbrella v).or (find config.umbrella v) } := by
  rw [← framework_merged, context, Context.ofConfig_eq]
  simp only [Context.foldl_withExtra, Context.foldl_withExclude, Context.foldl_withUmbrella,
    ByClass.foldl_put]
  cases i.installName with
  | some name => simp only [Context.withInstallName, Option.or_none]
  | none => cases i.plainDylib <;> simp [Context.withFramework]

/-- A run prints a document if the command line asks for one, and lines of text otherwise. -/
theorem render_eq (i : Invocation) (framework : Option String) (r : Resolution) :
    Program.render i framework r =
      if i.format = some .json then Report.json r framework ++ "\n"
      else Report.text r i.withExcluded := by
  rw [Program.render, outputFormat]
  cases i.format with
  | none => rfl
  | some f => cases f <;> rfl

/-- A command line over some settings has the framework of the one settings file that says both, and
resolves every sequence as that file alone does, with the same headers, warnings and failures. So a
run prints what that file resolves to, as a document or as lines of text, and nothing if it
fails. -/
theorem resolves_as_merged (fs : FileSystem) (i : Invocation) (config : Config) :
    (i.context config fs).framework = (Context.ofConfig (i.merged config) fs).framework ∧
      (∀ base, (i.context config fs).resolve base =
        (Context.ofConfig (i.merged config) fs).resolve base) ∧
      ∀ arguments base, CommandLine.parse arguments = .ok i →
        Program.loadConfig fs i = .ok config → FileList.load fs i.fileLists = .ok base →
        (Program.run fs arguments).stdout =
          match (Context.ofConfig (i.merged config) fs).resolve base with
          | .ok r =>
            if i.format = some .json then
              Report.json r (Context.ofConfig (i.merged config) fs).framework ++ "\n"
            else Report.text r i.withExcluded
          | .error _ => "" := by
  have framework : (i.context config fs).framework =
      (Context.ofConfig (i.merged config) fs).framework := by
    rw [context_eq, Context.ofConfig_eq]
  have resolve (base : List Header) : (i.context config fs).resolve base =
      (Context.ofConfig (i.merged config) fs).resolve base := by
    rw [context_eq, Context.ofConfig_eq]
    apply Context.resolve_congr
    case fs | namer | framework => rfl
    case extra =>
      funext v
      exact (ByClass.find_orElse i.extra config.extra v).symm
    case exclude =>
      funext v
      exact (ByClass.find_orElse i.exclude config.exclude v).symm
    case umbrella =>
      funext v
      exact (ByClass.find_orElse i.umbrella config.umbrella v).symm
  refine ⟨framework, resolve, ?_⟩
  intro arguments base parsed configured listed
  have run : Program.run fs arguments = Program.resolve fs i config base := by
    rw [Program.run, parsed]
    simp only [configured, listed]
  rw [run, Program.resolve, ← resolve, ← framework]
  cases (i.context config fs).resolve base with
  | error f => rfl
  | ok r => exact render_eq i _ r

theorem ok_of_toOption {ε α : Type} {x : Except ε α} {a : α} (there : x.toOption = some a) :
    x = .ok a := by
  cases x with
  | ok b => exact congrArg Except.ok (Option.some.inj there)
  | error e => cases there

/-- A settings file and a file list. -/
def fooFiles : FileSystem :=
  FileTable.fileSystem
    { current := .ofString "/"
      files := [(.ofString "/a.h", some 0), (.ofString "/b.h", some 1), (.ofString "/p.h", some 2)]
      dirs := []
      texts :=
        [(.ofString "foo.toml",
            .ok "[extra]\npublic = [\"/a.h\"]\n[exclude]\nprivate = [\"/p.h\"]"),
          (.ofString "foo.json",
            .ok ("\x7b\"version\": \"3\", \"headers\": " ++
              "[\x7b\"type\": \"private\", \"path\": \"/p.h\"\x7d]\x7d"))] }

def fooArguments : List String :=
  ["--config", "foo.toml", "--extra-public-header", "/b.h", "--", "foo.json"]

def fooInvocation : Invocation :=
  { CommandLine.start with
    fileLists := [.ofString "foo.json"]
    config := some (.ofString "foo.toml")
    extra := ⟨some ["/b.h"], none, none⟩ }

def fooConfig : Config :=
  { Config.empty with
    extra := ⟨some ["/a.h"], none, none⟩
    exclude := ⟨none, some ["/p.h"], none⟩ }

/-- The extra header of the settings is replaced, and their exclusion stays. -/
theorem fooInvocation_resolves_as_merged :
    CommandLine.parse fooArguments = .ok fooInvocation ∧
      Program.loadConfig fooFiles fooInvocation = .ok fooConfig ∧
      FileList.load fooFiles fooInvocation.fileLists = .ok [.listed .priv (.ofString "/p.h")] ∧
      (fooInvocation.merged fooConfig).extra = ⟨some ["/b.h"], none, none⟩ ∧
      (fooInvocation.merged fooConfig).exclude = ⟨none, some ["/p.h"], none⟩ ∧
      (Program.run fooFiles fooArguments).stdout = "public\t/b.h [extra]\n" := by
  have parsed : CommandLine.parse fooArguments = .ok fooInvocation :=
    ok_of_toOption (by decide +kernel)
  have configured : Program.loadConfig fooFiles fooInvocation = .ok fooConfig :=
    ok_of_toOption (by decide +kernel)
  have listed : FileList.load fooFiles fooInvocation.fileLists =
      .ok [.listed .priv (.ofString "/p.h")] := ok_of_toOption (by decide +kernel)
  refine ⟨parsed, configured, listed, rfl, rfl, ?_⟩
  obtain ⟨-, -, printed⟩ := resolves_as_merged fooFiles fooInvocation fooConfig
  rw [printed _ _ parsed configured listed]
  decide +kernel

end Invocation

end LibraryHeaders
