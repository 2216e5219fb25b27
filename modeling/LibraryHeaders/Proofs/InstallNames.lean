import LibraryHeaders.InstallName
import LibraryHeaders.Proofs.Patterns

/-!
# The framework in an install name

Convention has an install name read as `(.+)/(.+)\.framework/`, where the second run is the name of
the framework: the innermost one, as both runs take what they can. Here this is said by places in a
line. The bundle is the last one of the line, and the slash before the name is the last one that
leaves room for a name. Where no component is `.framework` alone, the name is a component less its
extension.
-/

namespace LibraryHeaders.InstallName

open Text

/-- A line has a slash behind its first character, and behind that a name and a bundle. -/
def Bundled (line : List Char) : Prop :=
  ∃ dir name rest, dir ≠ [] ∧ name ≠ [] ∧ line = dir ++ '/' :: (name ++ (bundle ++ rest))

/-- The name before the last bundle of a line, up to the last slash that leaves room for one. -/
structure Named (line dir name : List Char) : Prop where
  room : name ≠ []
  bundled : LastAt bundle (dir ++ '/' :: name) line
  slash : ∀ other between, dir ++ '/' :: name = other ++ '/' :: between → between ≠ [] →
    other.length ≤ dir.length

/-- What convention reads in an install name. -/
def rule : List Part := [.run (· != '\n'), .text ['/'], .run (· != '\n'), .text bundle]

variable {line dir name : List Char}

/-- The last slash that leaves room for a name is the last one before the end of the name. -/
theorem lastAt_slash_iff {between : List Char} {last : Char} :
    LastAt ['/'] dir (dir ++ '/' :: between) ↔
      ∀ other name, dir ++ '/' :: (between ++ [last]) = other ++ '/' :: name → name ≠ [] →
        other.length ≤ dir.length := by
  constructor
  · intro lastAt other name parts nonempty
    obtain ⟨front, c, rfl⟩ := (List.eq_nil_or_concat' name).resolve_left nonempty
    have whole : (dir ++ '/' :: between) ++ [last] = (other ++ '/' :: front) ++ [c] := by
      simpa using parts
    exact lastAt.last other front (List.append_inj' whole rfl).1
  · intro greatest
    refine ⟨⟨between, rfl⟩, ?_⟩
    intro other rest parts
    have longer : dir ++ '/' :: (between ++ [last]) = other ++ '/' :: (rest ++ [last]) := by
      simpa using congrArg (· ++ [last]) parts
    exact greatest other (rest ++ [last]) longer (by simp)

theorem ofLine?_eq_some_iff :
    ofLine? line = some name ↔ ∃ dir, dir ≠ [] ∧ Named line dir name := by
  simp only [ofLine?, Option.bind_eq_bind, Option.bind_eq_some_iff, beforeLast?_eq_some_iff]
  constructor
  · rintro ⟨front, bundled, last, ends, dir, lastSlash, found⟩
    obtain ⟨init, rfl⟩ := List.getLast?_eq_some_iff.mp ends
    rw [List.dropLast_concat] at lastSlash found
    obtain ⟨between, rfl⟩ := lastSlash.occurs
    have nonempty : dir ≠ [] := by
      rintro rfl
      simp at found
    have same : name = between ++ [last] := by simpa [nonempty] using found.symm
    subst same
    refine ⟨dir, nonempty, by simp, by simpa using bundled, ?_⟩
    exact lastAt_slash_iff.mp lastSlash
  · rintro ⟨dir, nonempty, room, bundled, slash⟩
    obtain ⟨between, last, rfl⟩ := (List.eq_nil_or_concat' name).resolve_left room
    have lastSlash := lastAt_slash_iff.mpr slash
    have whole : dir ++ '/' :: (between ++ [last]) = (dir ++ '/' :: between) ++ [last] := by simp
    simp only [whole] at bundled
    refine ⟨_, bundled, last, List.getLast?_concat, dir, ?_⟩
    simp only [List.dropLast_concat]
    exact ⟨lastSlash, by simp [nonempty]⟩

/-- A line with a bundle behind a slash has a last one, and a last slash with room before that. -/
theorem bundled_iff : Bundled line ↔ ∃ dir name, dir ≠ [] ∧ Named line dir name := by
  constructor
  · rintro ⟨dir, name, rest, nonempty, room, parts⟩
    have split : line = (dir ++ '/' :: name) ++ (bundle ++ rest) := by simpa using parts
    obtain ⟨front, bundled, reach⟩ := exists_lastAt split
    obtain ⟨behind, whole⟩ := bundled.occurs
    obtain ⟨more, rfl⟩ : dir ++ '/' :: name <+: front :=
      List.prefix_of_prefix_length_le ⟨_, split.symm⟩ ⟨_, whole.symm⟩ reach
    -- the last character before the bundle belongs to the name, whatever it is
    have nonempty' : name ++ more ≠ [] := by simp [room]
    obtain ⟨between, last, ends⟩ := (List.eq_nil_or_concat' (name ++ more)).resolve_left nonempty'
    have front : (dir ++ '/' :: name) ++ more = (dir ++ '/' :: between) ++ [last] := by
      simp [ends]
    have slash : dir ++ '/' :: between = dir ++ (['/'] ++ between) := rfl
    obtain ⟨dir', lastSlash, further⟩ := exists_lastAt slash
    obtain ⟨between', parts'⟩ := lastSlash.occurs
    simp only [front, parts'] at bundled lastSlash
    have positive := List.length_pos_iff.mpr nonempty
    refine ⟨dir', between' ++ [last], List.length_pos_iff.mp (by omega), by simp, ?_, ?_⟩
    · simpa using bundled
    · exact lastAt_slash_iff.mp lastSlash
  · rintro ⟨dir, name, nonempty, room, ⟨⟨rest, parts⟩, _⟩, _⟩
    exact ⟨dir, name, rest, nonempty, room, by simpa using parts⟩

theorem isSome_ofLine?_iff : (ofLine? line).isSome = true ↔ Bundled line := by
  simp only [Option.isSome_iff_exists, ofLine?_eq_some_iff, bundled_iff]
  exact exists_comm

theorem ofLine?_eq_none_iff : ofLine? line = none ↔ ¬ Bundled line := by
  simp only [← isSome_ofLine?_iff, Option.not_isSome_iff_eq_none]

theorem Bundled.cons {c : Char} (bundled : Bundled line) : Bundled (c :: line) := by
  obtain ⟨dir, name, rest, _, room, parts⟩ := bundled
  exact ⟨c :: dir, name, rest, List.cons_ne_nil _ _, room, by simp [parts]⟩

section Rule

/-- What follows a line in a text. -/
def Follows (tail : List Char) : Prop := tail = [] ∨ tail.head? = some '\n'

variable {tail : List Char}

theorem lineFeed_notMem_bundle : '\n' ∉ bundle := by decide

/-- A bundle behind characters that go over no line break is one of the line. -/
theorem bundle_in_line {front behind : List Char} (follows : Follows tail) (plain : '\n' ∉ front)
    (parts : line ++ tail = front ++ (bundle ++ behind)) :
    ∃ left, line = front ++ (bundle ++ left) := by
  have plainBundle : '\n' ∉ front ++ bundle := by simp [plain, lineFeed_notMem_bundle]
  have split : line ++ tail = (front ++ bundle) ++ behind := by simp [parts]
  obtain ⟨left, whole⟩ := exists_append_of_notMem plainBundle follows split
  exact ⟨left, by simp [whole]⟩

/-- The rule reads a bundle only where the line has one. -/
theorem bundled_of_reads {taken : List (List Char)} (follows : Follows tail)
    (reads : Reads rule (line ++ tail) taken) : Bundled line := by
  simp only [rule, Reads, forall_bne_iff] at reads
  obtain ⟨dir, _, _, whole, _, nonempty, dirLine, _, rfl, name, _, _, rfl, _, room, nameLine, rest,
    rfl, _⟩ := reads
  have plain : '\n' ∉ dir ++ '/' :: name := by simp [dirLine, nameLine]
  have found : line ++ tail = (dir ++ '/' :: name) ++ (bundle ++ rest) := by simp [whole]
  obtain ⟨left, parts⟩ := bundle_in_line follows plain found
  exact ⟨dir, name, left, nonempty, room, by simpa using parts⟩

/-- Both runs take what they can: the first one up to the last slash with room for a name, the
second one up to the last bundle. -/
theorem read?_of_named (nonempty : dir ≠ []) (oneLine : '\n' ∉ line) (follows : Follows tail)
    (named : Named line dir name) : read? rule (line ++ tail) = some [dir, name] := by
  obtain ⟨room, ⟨⟨rest, parts⟩, lastBundle⟩, slash⟩ := named
  have inLine : ∀ front behind, '\n' ∉ front → line ++ tail = front ++ (bundle ++ behind) →
      front.length ≤ (dir ++ '/' :: name).length ∧ front <+: line := by
    intro front behind plain same
    obtain ⟨left, occurs⟩ := bundle_in_line follows plain same
    exact ⟨lastBundle front left occurs, ⟨_, occurs.symm⟩⟩
  have plain : '\n' ∉ dir ∧ '\n' ∉ name := by
    simp only [parts, List.mem_append, List.mem_cons, not_or] at oneLine
    exact ⟨oneLine.1.1, oneLine.1.2.2⟩
  have text : line ++ tail = dir ++ (['/'] ++ (name ++ (bundle ++ (rest ++ tail)))) := by
    simp [parts]
  have readsName : read? [.run (· != '\n'), .text bundle] (name ++ (bundle ++ (rest ++ tail))) =
      some [name] := by
    refine read?_run room (forall_bne_iff.mpr plain.2) (by rw [read?_text]; rfl) ?_
    rintro longer behind same each _ ⟨later, rfl, _⟩
    have plainLonger : '\n' ∉ dir ++ '/' :: longer := by
      simp [plain.1, forall_bne_iff.mp each]
    have reach := (inLine (dir ++ '/' :: longer) later plainLonger (by simp [text, same])).1
    simpa using reach
  rw [rule, text]
  refine read?_run nonempty (forall_bne_iff.mpr plain.1) (by rw [read?_text, readsName]) ?_
  intro longer behind same each others reads
  simp only [Reads, forall_bne_iff] at reads
  obtain ⟨_, rfl, between, _, _, rfl, _, roomBetween, plainBetween, later, rfl, _⟩ := reads
  have plainLonger : '\n' ∉ longer ++ '/' :: between := by
    simp [forall_bne_iff.mp each, plainBetween]
  obtain ⟨reach, starts⟩ := inLine (longer ++ '/' :: between) later plainLonger
    (by simpa [text] using same)
  obtain ⟨more, whole⟩ : longer ++ '/' :: between <+: dir ++ '/' :: name :=
    List.prefix_of_prefix_length_le starts ⟨_, parts.symm⟩ reach
  exact slash longer (between ++ more) (by simp [← whole]) (by simp [roomBetween])

/-- A line is searched at its start only: if it has a bundle, the rule reads from there, and if it
has none, the rule reads from no place in it. -/
theorem search?_line (oneLine : '\n' ∉ line) (follows : Follows tail) :
    (search? rule (line ++ tail)).bind (·[1]?) =
      (ofLine? line).or ((search? rule tail).bind (·[1]?)) := by
  induction line with
  | nil => rfl
  | cons c line ih =>
    cases found : ofLine? (c :: line) with
    | some name =>
      obtain ⟨dir, nonempty, named⟩ := ofLine?_eq_some_iff.mp found
      have reads := read?_of_named nonempty oneLine follows named
      rw [List.cons_append] at reads ⊢
      simp [search?, reads]
    | none =>
      have unbundled : ¬ Bundled (c :: line) := ofLine?_eq_none_iff.mp found
      have unread : read? rule (c :: line ++ tail) = none :=
        read?_eq_none_iff.mpr fun _ reads => unbundled (bundled_of_reads follows reads)
      have rest : ofLine? line = none :=
        ofLine?_eq_none_iff.mpr fun bundled => unbundled bundled.cons
      rw [List.cons_append] at unread ⊢
      simpa [search?, unread, rest] using ih (List.not_mem_of_not_mem_cons oneLine)

/-- The rule finds the framework of the first line that has one. -/
theorem search?_rule (s : List Char) :
    (search? rule s).bind (·[1]?) = (split '\n' s).findSome? ofLine? := by
  induction s using split_induction '\n' with
  | single line oneLine =>
    have searched := search?_line oneLine (Or.inl rfl)
    rw [List.append_nil] at searched
    have nothing : search? rule [] = none := rfl
    rw [searched, nothing, split_of_notMem oneLine]
    cases found : ofLine? line <;> simp [found]
  | more line rest oneLine ih =>
    have skips : search? rule ('\n' :: rest) = search? rule rest := rfl
    rw [search?_line oneLine (Or.inr rfl), skips, ih, split_append oneLine, List.findSome?_cons]
    cases ofLine? line <;> rfl

end Rule

/-- How the components of frameworks end. -/
def extension : List Char := ".framework".toList

/-- The component is the last one of a path that ends in `.framework` and has a slash behind it. -/
def Innermost (path component : List Char) : Prop :=
  extension <:+ component ∧ ∃ before after, split '/' path = before ++ component :: after ∧
    after ≠ [] ∧ ∀ other ∈ after.dropLast, ¬ extension <:+ other

theorem bundle_eq : bundle = extension ++ ['/'] := by decide

theorem slash_notMem_extension : '/' ∉ extension := by decide

/-- A slash in the name would end a component right before the bundle. -/
theorem Named.plain (named : Named line dir name)
    (bare : extension ∉ split '/' line) : '/' ∉ name := by
  obtain ⟨_, ⟨⟨rest, parts⟩, _⟩, slash⟩ := named
  intro inside
  obtain ⟨front, behind, rfl⟩ := List.append_of_mem inside
  by_cases ends : behind = []
  · subst ends
    refine bare ?_
    have whole : line = (dir ++ '/' :: front) ++ '/' :: (extension ++ '/' :: rest) := by
      simp [parts, bundle_eq]
    rw [whole, split_append_sep, split_append slash_notMem_extension]
    simp
  · have longer : dir ++ '/' :: (front ++ '/' :: behind) = (dir ++ '/' :: front) ++ '/' :: behind := by
      simp
    have reach := slash (dir ++ '/' :: front) behind longer ends
    simp only [List.length_append, List.length_cons] at reach
    omega

theorem Named.innermost (named : Named line dir name)
    (bare : extension ∉ split '/' line) :
    Innermost line (name ++ extension) := by
  have plain := named.plain bare
  obtain ⟨_, ⟨⟨rest, parts⟩, last⟩, _⟩ := named
  have whole : line = dir ++ '/' :: ((name ++ extension) ++ '/' :: rest) := by
    simp [parts, bundle_eq]
  refine ⟨List.suffix_append _ _, split '/' dir, split '/' rest, ?_, split_ne_nil _ _, ?_⟩
  · have plainComponent : '/' ∉ name ++ extension := by
      simp [plain, slash_notMem_extension]
    rw [whole, split_append_sep, split_append plainComponent]
  · rintro other inside ⟨front, rfl⟩
    obtain ⟨before, behind, later⟩ := exists_of_mem_dropLast_split inside
    have further : line = (dir ++ '/' :: (name ++ bundle ++ before ++ front)) ++ (bundle ++ behind) := by
      simp [parts, later, bundle_eq]
    have reach := last _ behind further
    simp only [List.length_append, List.length_cons] at reach
    have long : 0 < bundle.length := by decide
    omega

/-- The framework of a library that is no plain one is the one that the rule reads first. It is on
the first line with a bundle behind a slash, and there before the last bundle. Where a text is one
line without a component that is the extension alone, the name with the extension is the innermost
such component. -/
theorem framework_exact (installName : String) :
    framework? installName true = none ∧
      framework? installName false =
        ((search? rule installName.toList).bind (·[1]?)).map String.ofList ∧
      ((framework? installName false).isSome = true ↔
        ∃ line ∈ split '\n' installName.toList, Bundled line) ∧
      (∀ before line after, split '\n' installName.toList = before ++ line :: after →
        (∀ other ∈ before, ¬ Bundled other) → Bundled line →
        ∃ dir name, framework? installName false = some (String.ofList name) ∧
          Named line dir name) ∧
      ∀ name, '\n' ∉ installName.toList → extension ∉ split '/' installName.toList →
        framework? installName false = some name →
        name ≠ "" ∧ '/' ∉ name.toList ∧
          Innermost installName.toList (name.toList ++ extension) := by
  have onLines : framework? installName false =
      ((split '\n' installName.toList).findSome? ofLine?).map String.ofList := rfl
  refine ⟨rfl, ?_, ?_, ?_, ?_⟩
  · rw [search?_rule, onLines]
  · simp only [onLines, Option.isSome_map, List.findSome?_isSome_iff, isSome_ofLine?_iff]
  · intro before line after lines unbundled bundled
    obtain ⟨name, found⟩ := Option.isSome_iff_exists.mp (isSome_ofLine?_iff.mpr bundled)
    obtain ⟨dir, _, named⟩ := ofLine?_eq_some_iff.mp found
    refine ⟨dir, name, ?_, named⟩
    have first : (split '\n' installName.toList).findSome? ofLine? = some name := by
      rw [List.findSome?_eq_some_iff]
      refine ⟨before, line, after, lines, found, ?_⟩
      intro other earlier
      exact ofLine?_eq_none_iff.mpr (unbundled other earlier)
    rw [onLines, first]
    rfl
  · intro name oneLine bare found
    rw [onLines, split_of_notMem oneLine] at found
    obtain ⟨chars, inLine, rfl⟩ := Option.map_eq_some_iff.mp found
    obtain ⟨dir, _, named⟩ := ofLine?_eq_some_iff.mp (by simpa using inLine)
    rw [String.toList_ofList]
    refine ⟨?_, named.plain bare, named.innermost bare⟩
    intro empty
    have none : chars = [] := by simpa using congrArg String.toList empty
    exact named.room none

/-- The install name of a framework inside another one. -/
def nestedLibrary : String := "/S/Outer.framework/Frameworks/Inner.framework/Inner"

theorem nestedLibrary_of_inner :
    Bundled nestedLibrary.toList ∧
      (∃ dir name, framework? nestedLibrary false = some (String.ofList name) ∧
        Named nestedLibrary.toList dir name) ∧
      framework? nestedLibrary false = some "Inner" ∧
      '\n' ∉ nestedLibrary.toList ∧ extension ∉ split '/' nestedLibrary.toList ∧
      '/' ∉ "Inner".toList ∧ Innermost nestedLibrary.toList ("Inner".toList ++ extension) := by
  have bundled : Bundled nestedLibrary.toList :=
    ⟨"/S".toList, "Outer".toList, "Frameworks/Inner.framework/Inner".toList, by decide, by decide,
      by decide⟩
  have found : framework? nestedLibrary false = some "Inner" := by decide
  have oneLine : '\n' ∉ nestedLibrary.toList := by decide
  have bare : extension ∉ split '/' nestedLibrary.toList := by decide
  have lines : split '\n' nestedLibrary.toList = [] ++ [nestedLibrary.toList] := by decide
  obtain ⟨_, _, _, named, innermost⟩ := framework_exact nestedLibrary
  have first := named [] nestedLibrary.toList [] lines (by simp) bundled
  exact ⟨bundled, first, found, oneLine, bare, (innermost "Inner" oneLine bare found).2⟩

end LibraryHeaders.InstallName
