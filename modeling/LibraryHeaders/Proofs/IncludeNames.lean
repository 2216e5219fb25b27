import LibraryHeaders.IncludeName
import LibraryHeaders.Proofs.InstallNames
import Mathlib.Data.List.TakeWhile

/-!
# Include names and the places they are read off

Below a directory `include` the include name is what follows its first occurrence. Elsewhere it is
read off the first framework layout, `/([^/]+)\.framework/(?:Private)?Headers/(.+)$` as convention
writes it. At one place there is at most one layout, so the name is that of the layout with the
shortest path before it.
-/

namespace LibraryHeaders.IncludeName

open Text
open InstallName (extension slash_notMem_extension)

/-- The directories of a framework that hold headers. -/
def headerDirs : List (List Char) := ["Headers".toList, "PrivateHeaders".toList]

/-- A path lists a header of a framework: behind a directory and a slash stands the name of the
framework, then one of its header directories and the rest of the path. -/
structure Layout (path dir name rest : List Char) : Prop where
  named : name ≠ []
  component : '/' ∉ name
  nonempty : rest ≠ []
  oneLine : '\n' ∉ rest
  parts : ∃ headers ∈ headerDirs,
    path = dir ++ '/' :: (name ++ (extension ++ '/' :: (headers ++ '/' :: rest)))

/-- What convention reads behind the name of a framework. -/
def headersRule : List Part :=
  [.optional "Private".toList, .text "Headers/".toList, .run (· != '\n'), .finish]

/-- What convention reads in a path. -/
def rule : List Part :=
  .text ['/'] :: .run (· != '/') :: .text ".framework/".toList :: headersRule

variable {s name rest : List Char}

theorem framework?_eq_some_iff :
    framework? s = some (name, rest) ↔
      name ≠ [] ∧ '/' ∉ name ∧ s = name ++ (extension ++ '/' :: rest) := by
  constructor
  · intro found
    have cut : s.takeWhile (· != '/') ++ s.drop (s.takeWhile (· != '/')).length = s :=
      List.prefix_iff_eq_append.mp (List.takeWhile_prefix _)
    have plain : '/' ∉ s.takeWhile (· != '/') := by
      intro inside
      simpa using List.mem_takeWhile_imp inside
    simp only [framework?] at found
    generalize s.takeWhile (· != '/') = component at found cut plain
    split at found
    · rename_i fits
      obtain ⟨behind, here, same⟩ := Option.map_eq_some_iff.mp found
      obtain ⟨rfl, rfl⟩ := Prod.mk.inj same
      obtain ⟨nonempty, whole⟩ := fits
      rw [after?_eq_some_iff.mp here] at cut
      generalize component.take _ = name at nonempty whole
      change component = name ++ extension at whole
      subst whole
      refine ⟨nonempty, fun inside => plain (List.mem_append_left _ inside), ?_⟩
      simpa using cut.symm
    · cases found
  · rintro ⟨named, plain, rfl⟩
    have each : ∀ c ∈ name ++ extension, (c != '/') = true :=
      forall_bne_iff.mpr (by simp [plain, slash_notMem_extension])
    have component : (name ++ (extension ++ '/' :: rest)).takeWhile (· != '/') =
        name ++ extension := by
      rw [← List.append_assoc, List.takeWhile_append_of_pos each]
      simp
    have long : (name ++ extension).length - ".framework".length = name.length := by
      have same : extension.length = ".framework".length := by decide
      rw [List.length_append, same]
      omega
    have behind : after? ['/'] ((name ++ (extension ++ '/' :: rest)).drop (name ++ extension).length) =
        some rest := by
      rw [← List.append_assoc, List.drop_left]
      exact after?_eq_some_iff.mpr rfl
    simp only [framework?, component, long, behind, List.take_left]
    rw [if_pos ⟨named, rfl⟩]
    rfl

theorem inHeaders?_eq_some_iff :
    inHeaders? s = some rest ↔ rest ≠ [] ∧ '\n' ∉ rest ∧
      ∃ headers ∈ headerDirs, s = headers ++ '/' :: rest := by
  have either : (∃ headers ∈ headerDirs, s = headers ++ '/' :: rest) ↔
      after? "Headers/".toList s = some rest ∨ after? "PrivateHeaders/".toList s = some rest := by
    simp only [headerDirs, List.mem_cons, List.not_mem_nil, or_false, exists_eq_or_imp,
      exists_eq_left, after?_eq_some_iff]
    exact Iff.rfl
  have kept : (!rest.isEmpty && !rest.contains '\n') = true ↔ rest ≠ [] ∧ '\n' ∉ rest := by
    simp
  rw [inHeaders?, Option.filter_eq_some_iff, kept, either]
  cases shown : after? "Headers/".toList s with
  | some behind =>
    -- the two directories begin with different letters
    have hidden : after? "PrivateHeaders/".toList s = none := by
      rw [after?_eq_some_iff.mp shown]
      rfl
    simp only [hidden, reduceCtorEq, or_false]
    exact and_comm.trans and_assoc
  | none =>
    simp only [reduceCtorEq, false_or]
    exact and_comm.trans and_assoc

/-- What is read off a text behind a slash. -/
theorem here?_eq_some_iff {spelled : List Char} :
    here? s = some spelled ↔ ∃ name rest, Layout ('/' :: s) [] name rest ∧
      spelled = name ++ '/' :: rest := by
  simp only [here?, Option.bind_eq_bind, Option.bind_eq_some_iff, Prod.exists,
    framework?_eq_some_iff, inHeaders?_eq_some_iff, Option.pure_def, Option.some.injEq]
  constructor
  · rintro ⟨name, _, ⟨named, component, rfl⟩, rest, ⟨nonempty, oneLine, headers, isHeaders, rfl⟩, rfl⟩
    exact ⟨name, rest, ⟨named, component, nonempty, oneLine, headers, isHeaders, rfl⟩, rfl⟩
  · rintro ⟨name, rest, ⟨named, component, nonempty, oneLine, headers, isHeaders, parts⟩, rfl⟩
    exact ⟨name, _, ⟨named, component, (List.cons.inj parts).2⟩, rest,
      ⟨nonempty, oneLine, headers, isHeaders, rfl⟩, rfl⟩

theorem reads_headersRule_iff {taken : List (List Char)} :
    Reads headersRule s taken ↔ ∃ rest, taken = [rest] ∧ rest ≠ [] ∧ '\n' ∉ rest ∧
      ∃ headers ∈ headerDirs, s = headers ++ '/' :: rest := by
  have lastRun : ∀ later, Reads [.run (· != '\n'), .finish] later taken ↔
      taken = [later] ∧ later ≠ [] ∧ '\n' ∉ later := by
    intro later
    simp only [Reads, forall_bne_iff]
    constructor
    · rintro ⟨rest, _, _, parts, rfl, nonempty, oneLine, rfl, rfl⟩
      obtain rfl : later = rest := by simpa using parts
      exact ⟨rfl, nonempty, oneLine⟩
    · rintro ⟨rfl, nonempty, oneLine⟩
      exact ⟨later, [], [], by simp, rfl, nonempty, oneLine, rfl, rfl⟩
  simp only [headersRule, Reads.eq_2, Reads.eq_3, lastRun]
  constructor
  · rintro (⟨_, rfl, rest, rfl, rfl, nonempty, oneLine⟩ | ⟨rest, rfl, rfl, nonempty, oneLine⟩)
    · exact ⟨rest, rfl, nonempty, oneLine, "PrivateHeaders".toList, by simp [headerDirs], rfl⟩
    · exact ⟨rest, rfl, nonempty, oneLine, "Headers".toList, by simp [headerDirs], rfl⟩
  · rintro ⟨rest, rfl, nonempty, oneLine, headers, isHeaders, rfl⟩
    simp only [headerDirs, List.mem_cons, List.not_mem_nil, or_false] at isHeaders
    rcases isHeaders with rfl | rfl
    · exact Or.inr ⟨rest, rfl, rfl, nonempty, oneLine⟩
    · exact Or.inl ⟨_, rfl, rest, rfl, rfl, nonempty, oneLine⟩

/-- The rule reads the layouts that begin where it begins. -/
theorem reads_rule_iff {taken : List (List Char)} :
    Reads rule s taken ↔ ∃ name rest, taken = [name, rest] ∧ Layout s [] name rest := by
  simp only [rule, Reads, forall_bne_iff, reads_headersRule_iff]
  constructor
  · rintro ⟨_, rfl, name, _, _, rfl, rfl, named, component, _, rfl, rest, rfl, nonempty, oneLine,
      headers, isHeaders, rfl⟩
    exact ⟨name, rest, rfl, named, component, nonempty, oneLine, headers, isHeaders, rfl⟩
  · rintro ⟨name, rest, rfl, named, component, nonempty, oneLine, headers, isHeaders, rfl⟩
    exact ⟨_, rfl, name, _, _, rfl, rfl, named, component, _, rfl, rest, rfl, nonempty, oneLine,
      headers, isHeaders, rfl⟩

/-- A layout begins behind its directory. -/
theorem layout_iff {dir : List Char} :
    Layout s dir name rest ↔ ∃ later, s = dir ++ later ∧ Layout later [] name rest := by
  constructor
  · rintro ⟨named, component, nonempty, oneLine, headers, isHeaders, parts⟩
    exact ⟨_, parts, named, component, nonempty, oneLine, headers, isHeaders, rfl⟩
  · rintro ⟨_, rfl, named, component, nonempty, oneLine, headers, isHeaders, rfl⟩
    exact ⟨named, component, nonempty, oneLine, headers, isHeaders, rfl⟩

/-- At one place there is at most one layout: the name ends with its component, and only one of the
directories can follow. -/
theorem Layout.unique {name' rest' : List Char} (here : Layout s [] name rest)
    (there : Layout s [] name' rest') : name = name' ∧ rest = rest' := by
  obtain ⟨_, plain, nonempty, oneLine, headers, isHeaders, parts⟩ := here
  obtain ⟨_, plain', nonempty', oneLine', headers', isHeaders', parts'⟩ := there
  have same : (name ++ extension) ++ '/' :: (headers ++ '/' :: rest) =
      (name' ++ extension) ++ '/' :: (headers' ++ '/' :: rest') := by
    simpa using parts.symm.trans parts'
  have component : '/' ∉ name ++ extension := by simp [plain, slash_notMem_extension]
  have component' : '/' ∉ name' ++ extension := by simp [plain', slash_notMem_extension]
  obtain ⟨names, behind⟩ := append_sep_inj component component' same
  have oneComponent : ∀ headers ∈ headerDirs, '/' ∉ headers := by decide
  have rests := append_sep_inj (oneComponent headers isHeaders) (oneComponent headers' isHeaders')
    behind
  exact ⟨List.append_cancel_right names, rests.2⟩

/-- As there is one layout at most, trying out finds it. -/
theorem read?_rule_eq_some_iff {taken : List (List Char)} :
    read? rule s = some taken ↔ ∃ name rest, taken = [name, rest] ∧ Layout s [] name rest := by
  constructor
  · intro found
    exact reads_rule_iff.mp (reads_of_read? found)
  · rintro ⟨name, rest, rfl, layout⟩
    have reads := reads_rule_iff.mpr ⟨name, rest, rfl, layout⟩
    obtain ⟨taken, found⟩ := Option.isSome_iff_exists.mp reads.isSome
    obtain ⟨name', rest', rfl, layout'⟩ := reads_rule_iff.mp (reads_of_read? found)
    obtain ⟨rfl, rfl⟩ := layout.unique layout'
    exact found

theorem read?_rule_isSome_iff :
    (read? rule s).isSome = true ↔ ∃ name rest, Layout s [] name rest := by
  simp only [Option.isSome_iff_exists, read?_rule_eq_some_iff]
  constructor
  · rintro ⟨_, name, rest, _, layout⟩
    exact ⟨name, rest, layout⟩
  · rintro ⟨name, rest, layout⟩
    exact ⟨_, name, rest, rfl, layout⟩

/-- What the rule takes, put together, is what is read off behind a slash. -/
theorem read?_rule_cons (c : Char) :
    (read? rule (c :: s)).map (List.intercalate ['/']) = if c = '/' then here? s else none := by
  by_cases slash : c = '/'
  · subst slash
    ext spelled
    simp only [if_true, Option.map_eq_some_iff, read?_rule_eq_some_iff, here?_eq_some_iff]
    constructor
    · rintro ⟨_, ⟨name, rest, rfl, layout⟩, rfl⟩
      exact ⟨name, rest, layout, by simp [List.intercalate]⟩
    · rintro ⟨name, rest, layout, rfl⟩
      exact ⟨_, ⟨name, rest, rfl, layout⟩, by simp [List.intercalate]⟩
  · have unread : read? rule (c :: s) = none := by
      rw [← Option.not_isSome_iff_eq_none, read?_rule_isSome_iff]
      rintro ⟨name, rest, _, _, _, _, headers, _, parts⟩
      exact slash (List.cons.inj parts).1
    rw [unread, if_neg slash]
    rfl

theorem inFramework?_eq_search? (s : List Char) :
    inFramework? s = (search? rule s).map (List.intercalate ['/']) := by
  induction s with
  | nil => rfl
  | cons c s ih =>
    simp only [inFramework?, search?, ← read?_rule_cons, ih]
    cases read? rule (c :: s) <;> rfl

/-- The rule finds the layout with the shortest path before it. -/
theorem search?_rule_eq_some_iff {taken : List (List Char)} :
    search? rule s = some taken ↔ ∃ dir name rest, taken = [name, rest] ∧ Layout s dir name rest ∧
      ∀ other name' rest', Layout s other name' rest' → dir.length ≤ other.length := by
  simp only [search?_eq_some_iff, read?_rule_eq_some_iff, read?_rule_isSome_iff]
  constructor
  · rintro ⟨dir, later, parts, ⟨name, rest, rfl, layout⟩, first⟩
    refine ⟨dir, name, rest, rfl, layout_iff.mpr ⟨later, parts, layout⟩, ?_⟩
    intro other name' rest' layout'
    obtain ⟨later', parts', here⟩ := layout_iff.mp layout'
    exact first other later' parts' ⟨name', rest', here⟩
  · rintro ⟨dir, name, rest, rfl, layout, first⟩
    obtain ⟨later, parts, here⟩ := layout_iff.mp layout
    refine ⟨dir, later, parts, ⟨name, rest, rfl, here⟩, ?_⟩
    rintro other later' parts' ⟨name', rest', layout'⟩
    exact first other name' rest' (layout_iff.mpr ⟨later', parts', layout'⟩)

theorem search?_rule_isSome_iff :
    (search? rule s).isSome = true ↔ ∃ dir name rest, Layout s dir name rest := by
  constructor
  · intro found
    obtain ⟨taken, found⟩ := Option.isSome_iff_exists.mp found
    obtain ⟨dir, name, rest, _, layout, _⟩ := search?_rule_eq_some_iff.mp found
    exact ⟨dir, name, rest, layout⟩
  · rintro ⟨dir, name, rest, layout⟩
    obtain ⟨later, rfl, here⟩ := layout_iff.mp layout
    exact search?_isSome (read?_rule_isSome_iff.mpr ⟨name, rest, here⟩)

/-- Below a directory `include` the name is what follows the first one. Elsewhere it is what the
rule reads first, which is the name and the rest of the layout with the shortest path before it; and
there is no name exactly where there is no layout. -/
theorem conventional_exact (p : Path) :
    (includeDir <:+: p.chars → ∃ front rest, FirstAt includeDir front p.chars ∧
      p.chars = front ++ (includeDir ++ rest) ∧ conventional p = some (String.ofList rest)) ∧
    (¬ includeDir <:+: p.chars →
      conventional p =
        ((search? rule p.chars).map (List.intercalate ['/'])).map String.ofList ∧
      (∀ spelled, conventional p = some spelled ↔
        ∃ dir name rest, Layout p.chars dir name rest ∧
          (∀ other name' rest', Layout p.chars other name' rest' → dir.length ≤ other.length) ∧
          spelled = String.ofList (name ++ '/' :: rest)) ∧
      (conventional p = none ↔ ∀ dir name rest, ¬ Layout p.chars dir name rest)) := by
  constructor
  · intro below
    obtain ⟨rest, found⟩ := Option.isSome_iff_exists.mp (occursIn_iff.mpr below)
    obtain ⟨front, firstAt, parts⟩ := afterFirst?_eq_some_iff.mp found
    refine ⟨front, rest, firstAt, parts, ?_⟩
    simp only [conventional, ofChars?, found]
    rfl
  · intro elsewhere
    have missing : afterFirst? includeDir p.chars = none := by
      rw [← Option.not_isSome_iff_eq_none]
      exact fun found => elsewhere (occursIn_iff.mp found)
    have searched : conventional p =
        ((search? rule p.chars).map (List.intercalate ['/'])).map String.ofList := by
      simp only [conventional, ofChars?, missing, inFramework?_eq_search?]
    refine ⟨searched, ?_, ?_⟩
    · intro spelled
      simp only [searched, Option.map_eq_some_iff, search?_rule_eq_some_iff]
      constructor
      · rintro ⟨_, ⟨_, ⟨dir, name, rest, rfl, layout, first⟩, rfl⟩, rfl⟩
        exact ⟨dir, name, rest, layout, first, by simp [List.intercalate]⟩
      · rintro ⟨dir, name, rest, layout, first, rfl⟩
        exact ⟨_, ⟨_, ⟨dir, name, rest, rfl, layout, first⟩, rfl⟩, by simp [List.intercalate]⟩
    · rw [searched, Option.map_eq_none_iff, Option.map_eq_none_iff,
        ← Option.not_isSome_iff_eq_none, search?_rule_isSome_iff]
      simp only [not_exists]

/-- A header of the system. -/
def systemHeader : Path := Path.ofString "/usr/include/net/include/if.h"

/-- A header of a framework that stands among the headers of another one. -/
def nestedHeader : Path := Path.ofString "/S/A.framework/Headers/B.framework/Headers/b.h"

theorem nestedHeader_named_by_outer :
    includeDir <:+: systemHeader.chars ∧
      (∃ front rest, FirstAt includeDir front systemHeader.chars ∧
        systemHeader.chars = front ++ (includeDir ++ rest) ∧
        conventional systemHeader = some (String.ofList rest)) ∧
      ¬ includeDir <:+: nestedHeader.chars ∧
      conventional nestedHeader = some "A/B.framework/Headers/b.h" ∧
      ∃ dir name rest, Layout nestedHeader.chars dir name rest ∧
        (∀ other name' rest', Layout nestedHeader.chars other name' rest' →
          dir.length ≤ other.length) ∧
        "A/B.framework/Headers/b.h" = String.ofList (name ++ '/' :: rest) := by
  have below : includeDir <:+: systemHeader.chars := by decide
  have elsewhere : ¬ includeDir <:+: nestedHeader.chars := by decide
  have named : conventional nestedHeader = some "A/B.framework/Headers/b.h" := by decide
  have layouts := ((conventional_exact nestedHeader).2 elsewhere).2.1 "A/B.framework/Headers/b.h"
  exact ⟨below, (conventional_exact systemHeader).1 below, elsewhere, named, layouts.mp named⟩

end LibraryHeaders.IncludeName
