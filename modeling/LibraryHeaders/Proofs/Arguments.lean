import LibraryHeaders.CommandLine
import LibraryHeaders.Proofs.Conservation

/-!
# Command lines in any order

An argument that is complete in itself is an option with its value behind `=`, a switch or an
operand. `asked` reads off some arguments what they ask for, subject by subject: what stands for one
subject, in its order, and nothing of what stands between. The parser takes the arguments one by one
and keeps operands back until something else follows; what it has stored, with what it keeps back,
is at every point what the arguments so far ask for. So only the order within each list option and
among the operands counts.
-/

namespace LibraryHeaders

namespace OutputFormat

def word : OutputFormat → String
  | .text => "text"
  | .json => "json"

def ofWord? (word : String) : Option OutputFormat := [text, json].find? (·.word == word)

end OutputFormat

namespace CommandLine

/-! ## Arguments -/

/-- An argument that is complete in itself. -/
inductive Argument where
  | valued (o : Valued) (value : String)
  | switch (s : Switch)
  | operand (text : String)
  deriving DecidableEq, Repr

/-- What an argument is about. -/
inductive Subject where
  | valued (o : Valued)
  | switch (s : Switch)
  | operands
  deriving DecidableEq, Repr

/-- The list options and the operands. -/
def repeatable : List Subject :=
  Visibility.concrete.map (.valued <| .extra ·) ++
    Visibility.concrete.map (.valued <| .exclude ·) ++ [.operands]

/-- Whether the option takes the value. -/
def Valued.takes (o : Valued) (value : String) : Bool :=
  match o with
  | .config => value != ""
  | .format => (OutputFormat.ofWord? value).isSome
  | _ => true

namespace Argument

def text : Argument → String
  | valued o value => "--" ++ o.name ++ "=" ++ value
  | switch s => "--" ++ s.name
  | operand text => text

def subject : Argument → Subject
  | valued o _ => .valued o
  | switch s => .switch s
  | operand _ => .operands

def value : Argument → String
  | valued _ value => value
  | switch _ => ""
  | operand text => text

/-- An option with a value that it takes, a switch that leads to a run, or an operand that is not
taken for an option. -/
def isValid : Argument → Bool
  | valued o value => valuedOptions.contains o && o.takes value
  | switch s => [Switch.plainDylib, .withExcluded, .debug].contains s
  | operand text => text != "" && text.toList.head? != some '-'

end Argument

/-- The arguments are valid, and only list options and operands stand among them more than once. -/
structure WellFormed (args : List Argument) : Prop where
  valid : ∀ a ∈ args, a.isValid = true
  once : args.Pairwise fun a b => a.subject = b.subject → a.subject ∈ repeatable

/-! ## What arguments ask for -/

/-- The arguments about a subject, in order. -/
def about (s : Subject) (args : List Argument) : List Argument := args.filter (·.subject = s)

def values (s : Subject) (args : List Argument) : List String := (about s args).map (·.value)

/-- The values of a list option; an option that does not occur has no list. -/
def list? (s : Subject) (args : List Argument) : Option (List String) :=
  if about s args = [] then none else some (values s args)

/-- The value of an option that may be used once. -/
def value? (s : Subject) (args : List Argument) : Option String := (values s args).head?

def occurs (s : Subject) (args : List Argument) : Bool := !(about s args).isEmpty

def byClass {α : Type} (f : Visibility → α) : ByClass α := ⟨f .pub, f .priv, f .proj⟩

/-- The invocation that the arguments ask for. -/
def asked (args : List Argument) : Invocation where
  fileLists := (values .operands args).map Path.ofString
  extra := byClass fun v => list? (.valued (.extra v)) args
  exclude := byClass fun v => list? (.valued (.exclude v)) args
  umbrella := byClass fun v => value? (.valued (.umbrella v)) args
  installName := value? (.valued .installName) args
  plainDylib := occurs (.switch .plainDylib) args
  config := (value? (.valued .config) args).map Path.ofString
  format := (value? (.valued .format) args).bind OutputFormat.ofWord?
  withExcluded := occurs (.switch .withExcluded) args
  debug := occurs (.switch .debug) args

/-- The same arguments in an order that keeps that of the values of each list option and that of the
operands. -/
structure Reordered (args args' : List Argument) : Prop where
  perm : args.Perm args'
  kept : ∀ s ∈ repeatable, about s args' = about s args

section Asked

variable {args args' : List Argument}

theorem about_concat (s : Subject) (args : List Argument) (a : Argument) :
    about s (args ++ [a]) = about s args ++ if a.subject = s then [a] else [] := by
  rw [about, List.filter_append]
  by_cases same : a.subject = s <;> simp [about, same]

@[simp]
theorem values_concat (s : Subject) (args : List Argument) (a : Argument) :
    values s (args ++ [a]) = values s args ++ if a.subject = s then [a.value] else [] := by
  rw [values, about_concat, List.map_append]
  by_cases same : a.subject = s <;> simp [values, same]

@[simp]
theorem list?_concat (s : Subject) (args : List Argument) (a : Argument) :
    list? s (args ++ [a]) =
      if a.subject = s then some ((list? s args).getD [] ++ [a.value]) else list? s args := by
  rw [list?, list?, values_concat, about_concat]
  by_cases same : a.subject = s
  · by_cases none : about s args = [] <;> simp [same, none, values]
  · simp [same]

@[simp]
theorem value?_concat (s : Subject) (args : List Argument) (a : Argument) :
    value? s (args ++ [a]) =
      (value? s args).or (if a.subject = s then some a.value else none) := by
  rw [value?, values_concat, List.head?_append]
  by_cases same : a.subject = s <;> simp [value?, same]

@[simp]
theorem occurs_concat (s : Subject) (args : List Argument) (a : Argument) :
    occurs s (args ++ [a]) = (occurs s args || decide (a.subject = s)) := by
  rw [occurs, occurs, about_concat]
  by_cases same : a.subject = s <;> simp [same]

theorem asked_congr (same : ∀ s, about s args = about s args') : asked args = asked args' := by
  simp only [asked, list?, value?, values, occurs, same]

theorem value?_eq_none {s : Subject} (fresh : about s args = []) : value? s args = none := by
  rw [value?, values, fresh]
  rfl

theorem occurs_eq_false {s : Subject} (fresh : about s args = []) : occurs s args = false := by
  rw [occurs, fresh]
  rfl

end Asked

/-! ## Taking one argument -/

section Take

variable {args : List Argument}

theorem formatValue_eq {x : String} {f : OutputFormat} (named : OutputFormat.ofWord? x = some f) :
    formatValue x = .ok f := by
  have word : f.word = x := by simpa using List.find?_some named
  subst word
  cases f <;> rfl

/-- A value is stored where the arguments before have left what they ask for. -/
theorem store_asked {o : Valued} {x : String} (valid : (Argument.valued o x).isValid = true)
    (fresh : Subject.valued o ∉ repeatable → about (.valued o) args = []) :
    store (asked args) o x = .ok (asked (args ++ [.valued o x])) := by
  simp only [Argument.isValid, Bool.and_eq_true, List.contains_iff_mem] at valid
  obtain ⟨declared, takes⟩ := valid
  -- the options that may be used once are found unset; a list option takes any number of values
  cases o with
  | extra v | exclude v =>
    cases v with
    | unspecified => exact absurd declared (by decide)
    | pub | priv | proj =>
      simp [store, append, asked, byClass, ByClass.modify, Argument.subject, Argument.value]
  | umbrella v =>
    cases v with
    | unspecified => exact absurd declared (by decide)
    | pub | priv | proj =>
      have unset := value?_eq_none (fresh (by decide))
      simp [store, once, unset, Except.map, find, asked, byClass, ByClass.modify,
        Argument.subject, Argument.value]
  | installName =>
    have unset := value?_eq_none (fresh (by decide))
    simp [store, once, unset, Except.map, asked, byClass, Argument.subject, Argument.value]
  | config =>
    have unset := value?_eq_none (fresh (by decide))
    have path : x ≠ "" := by simpa [Valued.takes] using takes
    simp [store, once, unset, Except.map, pathValue, path, asked, byClass, Argument.subject,
      Argument.value]
  | format =>
    have unset := value?_eq_none (fresh (by decide))
    obtain ⟨f, named⟩ := Option.isSome_iff_exists.mp takes
    simp [store, once, unset, Except.map, formatValue_eq named, named, asked, byClass,
      Argument.subject, Argument.value]

theorem flip_asked {s : Switch} (valid : (Argument.switch s).isValid = true)
    (fresh : about (.switch s) args = []) :
    flip (asked args) s = .ok (asked (args ++ [.switch s])) := by
  have off := occurs_eq_false fresh
  cases s with
  | help | version => cases valid
  | plainDylib | withExcluded | debug =>
    simp [flip, asked, off, byClass, Argument.subject]

theorem pathValue_eq {option x : String} (nonempty : x ≠ "") :
    pathValue option x = .ok (Path.ofString x) := if_neg nonempty

/-- Nothing waits for its value, and with what is kept back all that is asked for is stored. -/
structure Stands (j i : Invocation) (pending : Pending) : Prop where
  settled : settle i pending = .ok j
  complete : ∀ o value, pending ≠ .option o value

theorem Stands.nothing (i : Invocation) : Stands i i .nothing := ⟨rfl, nofun⟩

theorem settle_operands_cons {i j : Invocation} {kept : List String} {x : String}
    (nonempty : x ≠ "") (settled : settle i (.operands kept) = .ok j) :
    settle i (.operands (x :: kept)) =
      .ok { j with fileLists := j.fileLists ++ [Path.ofString x] } := by
  rw [settle] at settled ⊢
  obtain ⟨paths, each, ⟨⟩⟩ := bind_eq_ok.mp settled
  rw [List.reverse_cons, List.mapM_append, each]
  simp [pathValue_eq nonempty, bind, Except.bind, pure, Except.pure]

/-- An operand is kept back behind others. -/
theorem takeOperand_stands {i j : Invocation} {pending : Pending} {x : String} (nonempty : x ≠ "")
    (stands : Stands j i pending) :
    ∃ i' pending', takeOperand i pending x = .ok (i', pending') ∧
      Stands { j with fileLists := j.fileLists ++ [Path.ofString x] } i' pending' := by
  cases pending with
  | option o value => exact absurd rfl (stands.complete o value)
  | operands kept =>
    exact ⟨i, _, rfl, settle_operands_cons nonempty stands.settled, nofun⟩
  | nothing =>
    obtain rfl : i = j := Except.ok.inj stands.settled
    have none : settle i (.operands []) = .ok i := by
      simp [settle, bind, Except.bind, pure, Except.pure]
    exact ⟨i, _, rfl, settle_operands_cons nonempty none, nofun⟩

theorem asked_operand (args : List Argument) (x : String) :
    asked (args ++ [.operand x]) =
      { asked args with fileLists := (asked args).fileLists ++ [Path.ofString x] } := by
  simp [asked, byClass, Argument.subject, Argument.value]

theorem valued_names :
    ∀ o ∈ valuedOptions, known? o.name = some (.valued o) ∧ '=' ∉ o.name.toList := by
  decide +kernel

theorem switch_names :
    ∀ s ∈ switches, known? s.name = some (.switch s) ∧ '=' ∉ s.name.toList := by
  decide +kernel

theorem toList_text_valued (o : Valued) (value : String) :
    (Argument.valued o value).text.toList =
      '-' :: '-' :: (o.name.toList ++ '=' :: value.toList) := by
  simp [Argument.text]

theorem toList_text_switch (s : Switch) :
    (Argument.switch s).text.toList = '-' :: '-' :: s.name.toList := by
  simp [Argument.text]

theorem takeWhile_name {name : List Char} (noEq : '=' ∉ name) (rest : List Char) :
    (name ++ rest).takeWhile (· != '=') = name ++ rest.takeWhile (· != '=') :=
  List.takeWhile_append_of_pos fun _ mem => bne_iff_ne.mpr (ne_of_mem_of_not_mem mem noEq)

theorem splitOption_value {name : List Char} (noEq : '=' ∉ name) (value : List Char) :
    splitOption (name ++ '=' :: value) = (String.ofList name, some (String.ofList value)) := by
  have word : (name ++ '=' :: value).takeWhile (· != '=') = name := by
    rw [takeWhile_name noEq]
    exact List.append_nil name
  rw [splitOption, word, List.drop_left]

theorem splitOption_bare {name : List Char} (noEq : '=' ∉ name) :
    splitOption name = (String.ofList name, none) := by
  have word : name.takeWhile (· != '=') = name := by
    simpa using takeWhile_name noEq []
  rw [splitOption, word, List.drop_length]

theorem take_valued {i : Invocation} {pending : Pending} {o : Valued} (declared : o ∈ valuedOptions)
    (value : String) :
    take i pending (Argument.valued o value).text = do
      let i ← store (← settle i pending) o value
      return (i, .nothing) := by
  obtain ⟨known, noEq⟩ := valued_names o declared
  rw [take, toList_text_valued]
  change takeLong i pending _ _ = _
  rw [takeLong, splitOption_value noEq, String.ofList_toList, String.ofList_toList]
  dsimp only
  rw [known]

theorem take_switch {i : Invocation} {pending : Pending} {s : Switch} (declared : s ∈ switches) :
    take i pending (Argument.switch s).text = do
      let i ← flip (← settle i pending) s
      return (i, .nothing) := by
  obtain ⟨known, noEq⟩ := switch_names s declared
  rw [take, toList_text_switch]
  change takeLong i pending _ _ = _
  rw [takeLong, splitOption_bare noEq, String.ofList_toList]
  dsimp only
  rw [known]

theorem take_operand {i : Invocation} {pending : Pending} {x : String}
    (complete : ∀ o value, pending ≠ .option o value) (plain : x.toList.head? ≠ some '-') :
    take i pending (Argument.operand x).text = takeOperand i pending x := by
  have taken : take i pending x = takePlain i pending x := by
    unfold take
    split
    · rename_i spelt
      exact absurd (by rw [spelt]; rfl) plain
    · rename_i spelt
      exact absurd (by rw [spelt]; rfl) plain
    · rfl
  rw [Argument.text, taken]
  cases pending with
  | option o value => exact absurd rfl (complete o value)
  | nothing | operands => rfl

/-- One more argument is taken. -/
theorem take_stands {a : Argument} {i : Invocation} {pending : Pending} (valid : a.isValid = true)
    (fresh : a.subject ∉ repeatable → about a.subject args = [])
    (stands : Stands (asked args) i pending) :
    ∃ i' pending', take i pending a.text = .ok (i', pending') ∧
      Stands (asked (args ++ [a])) i' pending' := by
  cases a with
  | valued o value =>
    have declared : o ∈ valuedOptions := by
      simp only [Argument.isValid, Bool.and_eq_true, List.contains_iff_mem] at valid
      exact valid.1
    refine ⟨_, _, ?_, .nothing _⟩
    rw [take_valued declared, stands.settled]
    exact congrArg (Except.map (·, Pending.nothing)) (store_asked valid fresh)
  | switch s =>
    have declared : s ∈ switches := by cases s <;> decide
    refine ⟨_, _, ?_, .nothing _⟩
    rw [take_switch declared, stands.settled]
    have once : Subject.switch s ∉ repeatable := by simp [repeatable]
    exact congrArg (Except.map (·, Pending.nothing)) (flip_asked valid (fresh once))
  | operand x =>
    simp only [Argument.isValid, Bool.and_eq_true, bne_iff_ne] at valid
    rw [take_operand stands.complete valid.2, asked_operand]
    exact takeOperand_stands valid.1 stands

end Take

/-! ## Taking all arguments -/

section Run

variable {args args' : List Argument}

theorem text_ne_dashes {a : Argument} (valid : a.isValid = true) : a.text ≠ "--" := by
  intro dashes
  have spelt : a.text.toList = ['-', '-'] := congrArg String.toList dashes
  cases a with
  | valued o value =>
    rw [toList_text_valued] at spelt
    exact absurd spelt (by simp)
  | switch s =>
    rw [toList_text_switch] at spelt
    cases s <;> exact absurd spelt (by decide)
  | operand x =>
    simp only [Argument.isValid, Bool.and_eq_true, bne_iff_ne] at valid
    exact valid.2 (congrArg List.head? spelt)

theorem WellFormed.fresh {before after : List Argument} {a : Argument}
    (wellFormed : WellFormed (before ++ a :: after)) (single : a.subject ∉ repeatable) :
    about a.subject before = [] := by
  obtain ⟨-, -, apart⟩ := List.pairwise_append.mp wellFormed.once
  rw [about, List.filter_eq_nil_iff]
  intro b mem same
  have same : b.subject = a.subject := by simpa using same
  exact single (same ▸ apart b mem a List.mem_cons_self same)

/-- The arguments that are left are taken after those before them. -/
theorem takeAll_asked {before rest : List Argument} {i : Invocation} {pending : Pending}
    (wellFormed : WellFormed (before ++ rest)) (stands : Stands (asked before) i pending) :
    takeAll i pending false (rest.map Argument.text) = .ok (asked (before ++ rest)) := by
  -- the arguments before grow by one at each step, while the whole line stays as it is
  induction rest generalizing before i pending with
  | nil =>
    rw [List.append_nil]
    exact stands.settled
  | cons a rest ih =>
    have valid := wellFormed.valid a (List.mem_append_right _ List.mem_cons_self)
    obtain ⟨i', pending', taken, stands'⟩ := take_stands valid wellFormed.fresh stands
    rw [List.append_cons] at wellFormed ⊢
    rw [List.map_cons, takeAll, if_neg (text_ne_dashes valid), taken]
    exact ih wellFormed stands'

theorem parse_asked (wellFormed : WellFormed args) :
    parse (args.map Argument.text) = .ok (asked args) := by
  have whole : WellFormed ([] ++ args) := wellFormed
  exact takeAll_asked whole (.nothing start)

/-! ## Reordering -/

theorem Reordered.wellFormed (reordered : Reordered args args') (wellFormed : WellFormed args) :
    WellFormed args' where
  valid a mem := wellFormed.valid a (reordered.perm.mem_iff.mpr mem)
  once := by
    refine (reordered.perm.pairwise_iff ?_).mp wellFormed.once
    intro a b once same
    exact same ▸ once same.symm

theorem WellFormed.about_length_le (wellFormed : WellFormed args) {s : Subject}
    (single : s ∉ repeatable) : (about s args).length ≤ 1 := by
  have once := wellFormed.once.filter (·.subject = s)
  have subjects : ∀ a ∈ about s args, a.subject = s := by
    intro a mem
    simpa using List.of_mem_filter mem
  change (about s args).Pairwise _ at once
  match about s args, once, subjects with
  | [], _, _ => exact Nat.zero_le 1
  | [_], _, _ => exact Nat.le_refl 1
  | a :: b :: _, once, subjects =>
    obtain ⟨first, second, -⟩ := by simpa using subjects
    have both := (List.pairwise_cons.mp once).1 b List.mem_cons_self
    exact absurd (both (first.trans second.symm)) (first ▸ single)

theorem Reordered.about_eq (reordered : Reordered args args') (wellFormed : WellFormed args)
    (s : Subject) : about s args' = about s args := by
  by_cases listed : s ∈ repeatable
  · exact reordered.kept s listed
  · have perm : (about s args).Perm (about s args') := reordered.perm.filter _
    have few := wellFormed.about_length_le listed
    match about s args, few, perm with
    | [], _, perm => exact perm.symm.eq_nil
    | [_], _, perm => exact List.perm_singleton.mp perm.symm

/-- Arguments that are complete in themselves are parsed in whatever order they stand: each list
option has its values in their order and is absent if and only if it does not occur, the operands
are the file lists in their order, and everything else is as it is asked for. Another order that
keeps the order within each list option and among the operands is parsed to the same invocation.
The extras, the exclusions and the umbrella headers that are given come class by class, in
processing order. -/
theorem parse_reordered (wellFormed : WellFormed args) :
    parse (args.map Argument.text) = .ok (asked args) ∧
      (∀ args', Reordered args args' → parse (args'.map Argument.text) = .ok (asked args)) ∧
      (asked args).extra.present =
        Visibility.concrete.filterMap (fun v => (list? (.valued (.extra v)) args).map (v, ·)) ∧
      (asked args).exclude.present =
        Visibility.concrete.filterMap (fun v => (list? (.valued (.exclude v)) args).map (v, ·)) ∧
      (asked args).umbrella.present = Visibility.concrete.filterMap (fun v =>
        (value? (.valued (.umbrella v)) args).map (v, ·)) := by
  refine ⟨parse_asked wellFormed, ?_, rfl, rfl, rfl⟩
  intro args' reordered
  rw [parse_asked (reordered.wellFormed wellFormed)]
  exact congrArg Except.ok (asked_congr (reordered.about_eq wellFormed))

end Run

/-- Operands, two values of one list option and a switch between one another. -/
def mixedArguments : List Argument :=
  [.operand "a.json", .valued (.extra .priv) "b.h", .switch .plainDylib, .operand "b.json",
    .valued (.exclude .proj) "", .valued (.extra .priv) "a=h", .valued .format "json",
    .valued (.extra .pub) "c.h"]

def shuffledArguments : List Argument :=
  [.valued .format "json", .valued (.extra .priv) "b.h", .valued (.extra .pub) "c.h",
    .operand "a.json", .valued (.extra .priv) "a=h", .operand "b.json", .switch .plainDylib,
    .valued (.exclude .proj) ""]

theorem mixedArguments_parse_reordered :
    WellFormed mixedArguments ∧ Reordered mixedArguments shuffledArguments ∧
      parse ["a.json", "--extra-private-header=b.h", "--dynamiclib", "b.json",
        "--exclude-project-header=", "--extra-private-header=a=h", "--format=json",
        "--extra-public-header=c.h"] = .ok (asked mixedArguments) ∧
      parse ["--format=json", "--extra-private-header=b.h", "--extra-public-header=c.h", "a.json",
        "--extra-private-header=a=h", "b.json", "--dynamiclib", "--exclude-project-header="] =
        .ok (asked mixedArguments) ∧
      asked mixedArguments =
        { start with
          fileLists := [.ofString "a.json", .ofString "b.json"]
          extra := ⟨some ["c.h"], some ["b.h", "a=h"], none⟩
          exclude := ⟨none, none, some [""]⟩
          plainDylib := true
          format := some .json } := by
  have wellFormed : WellFormed mixedArguments := ⟨by decide, by decide⟩
  have reordered : Reordered mixedArguments shuffledArguments := ⟨by decide, by decide⟩
  obtain ⟨parsed, others, -⟩ := parse_reordered wellFormed
  exact ⟨wellFormed, reordered, parsed, others _ reordered, by decide⟩

end CommandLine

end LibraryHeaders
