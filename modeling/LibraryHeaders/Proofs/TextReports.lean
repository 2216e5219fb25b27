import LibraryHeaders.Proofs.Occurrences
import LibraryHeaders.Proofs.Utf8
import LibraryHeaders.Report

/-!
# Reading text reports

A line of a text report holds a class, a tab, a path and a mark for each flag that is raised, and
nothing is quoted. It is read from both ends: the class ends at the first tab, whatever the path
holds, and the marks are taken off the end, the last one written first. No mark ends in another one,
so a mark that is not there is not found in the marks before it either, and what is left is the
path. Only a path that ends in a mark itself, or that goes on in the next line, could be taken for
something else.
-/

namespace LibraryHeaders.Report

/-- What a line says of a header. -/
structure Entry where
  visibility : Visibility
  path : List Char
  isUmbrella : Bool
  isExtra : Bool
  isExcluded : Bool
  deriving DecidableEq, Repr

/-- What there is to say of a header. -/
def entryOf (h : Header) : Entry :=
  ⟨h.visibility, h.path.chars, h.isUmbrella, h.isExtra, h.isExcluded⟩

def umbrellaMark : String := " [umbrella]"

def extraMark : String := " [extra]"

def excludedMark : String := " [excluded]"

/-- The path is on one line and does not end in a mark. -/
structure Plain (path : List Char) : Prop where
  oneLine : '\n' ∉ path
  umbrella : ¬umbrellaMark.toList <:+ path
  extra : ¬extraMark.toList <:+ path
  excluded : ¬excludedMark.toList <:+ path

/-! ## The reader -/

/-- A text without a mark at its end, and whether the mark was there. -/
def unmark (mark : String) (s : List Char) : List Char × Bool :=
  if Text.endsWith s mark.toList then (s.take (s.length - mark.length), true) else (s, false)

/-- What a line says: the class before the first tab, and behind it a path with marks. -/
def readLine? (s : List Char) : Option Entry :=
  match s.dropWhile (· != '\t') with
  | [] => none
  | _ :: marked =>
    let (marked, isExcluded) := unmark excludedMark marked
    let (marked, isExtra) := unmark extraMark marked
    let (path, isUmbrella) := unmark umbrellaMark marked
    (Visibility.ofName? (String.ofList (s.takeWhile (· != '\t')))).map fun v =>
      ⟨v, path, isUmbrella, isExtra, isExcluded⟩

/-- The lines of a text in which a line feed ends every line. -/
def lines? (s : List Char) : Option (List (List Char)) :=
  match (Text.split '\n' s).reverse with
  | [] :: lines => some lines.reverse
  | _ => none

def read? (s : String) : Option (List Entry) := do (← lines? s.toList).mapM readLine?

/-! ## Marks -/

/-- A text with a mark behind it, if there is something to mark. -/
def marked (s : List Char) (mark : String) (flag : Bool) : List Char :=
  s ++ (if flag then mark else "").toList

/-- Neither of two marks ends in the other. -/
def Apart (mark other : String) : Prop :=
  ¬mark.toList <:+ other.toList ∧ ¬other.toList <:+ mark.toList

instance (mark other : String) : Decidable (Apart mark other) := inferInstanceAs (Decidable (_ ∧ _))

section Marks

variable {mark other : String} {s : List Char}

theorem marked_false (s : List Char) (mark : String) : marked s mark false = s := by
  simp [marked]

theorem marked_true (s : List Char) (mark : String) : marked s mark true = s ++ mark.toList := by
  simp [marked]

theorem unmark_marked (plain : ¬mark.toList <:+ s) (flag : Bool) :
    unmark mark (marked s mark flag) = (s, flag) := by
  cases flag with
  | false =>
    rw [marked_false]
    exact if_neg fun ends => plain (Text.endsWith_iff.mp ends)
  | true =>
    have ends : Text.endsWith (s ++ mark.toList) mark.toList = true :=
      Text.endsWith_iff.mpr (List.suffix_append s mark.toList)
    rw [marked_true, unmark, if_pos ends, List.length_append, String.length_toList,
      Nat.add_sub_cancel, List.take_left]

/-- Two marks of which neither ends in the other do not stand at the end of one text. -/
theorem not_suffix_marked (apart : Apart mark other) (plain : ¬mark.toList <:+ s) (flag : Bool) :
    ¬mark.toList <:+ marked s other flag := by
  cases flag with
  | false =>
    rw [marked_false]
    exact plain
  | true =>
    rw [marked_true]
    intro ends
    have ending := List.suffix_append s other.toList
    rcases List.suffix_or_suffix_of_suffix ends ending with inside | inside
    · exact apart.1 inside
    · exact apart.2 inside

theorem notMem_marked {c : Char} (text : c ∉ s) (inMark : c ∉ mark.toList) (flag : Bool) :
    c ∉ marked s mark flag := by
  cases flag with
  | false => rwa [marked_false]
  | true =>
    rw [marked_true, List.mem_append, not_or]
    exact ⟨text, inMark⟩

end Marks

/-! ## Lines -/

/-- The path of a header with its marks. -/
def markedPath (h : Header) : List Char :=
  marked (marked (marked h.path.chars umbrellaMark h.isUmbrella) extraMark h.isExtra) excludedMark
    h.isExcluded

/-- The line of a header without its line feed. -/
def lineOf (h : Header) : List Char := h.visibility.name.toList ++ '\t' :: markedPath h

theorem toList_line (h : Header) : (line h).toList = lineOf h ++ ['\n'] := by
  have tab : "\t".toList = ['\t'] := by decide
  have lineFeed : "\n".toList = ['\n'] := by decide
  simp only [line, lineOf, markedPath, marked, umbrellaMark, extraMark, excludedMark, Path.text,
    String.toList_append, String.toList_ofList, tab, lineFeed, List.append_assoc, List.cons_append,
    List.nil_append]

theorem readLine?_lineOf {h : Header} (plain : Plain h.path.chars) :
    readLine? (lineOf h) = some (entryOf h) := by
  have name : '\t' ∉ h.visibility.name.toList := by cases h.visibility <;> decide
  have tabless : ∀ c ∈ h.visibility.name.toList, (c != '\t') = true :=
    fun c mem => bne_iff_ne.mpr fun tab => name (tab ▸ mem)
  have start : (lineOf h).takeWhile (· != '\t') = h.visibility.name.toList := by
    rw [lineOf, List.takeWhile_append_of_pos tabless, List.takeWhile_cons_of_neg (by decide),
      List.append_nil]
  have rest : (lineOf h).dropWhile (· != '\t') = '\t' :: markedPath h := by
    rw [lineOf, List.dropWhile_append_of_pos tabless, List.dropWhile_cons_of_neg (by decide)]
  have extraUmbrella : Apart extraMark umbrellaMark := by decide
  have excludedUmbrella : Apart excludedMark umbrellaMark := by decide
  have excludedExtra : Apart excludedMark extraMark := by decide
  have noExtra := not_suffix_marked extraUmbrella plain.extra h.isUmbrella
  have noExcluded := not_suffix_marked excludedExtra
    (not_suffix_marked excludedUmbrella plain.excluded h.isUmbrella) h.isExtra
  rw [readLine?, rest, start, String.ofList_toList, Visibility.ofName?_name]
  simp only [markedPath, unmark_marked noExcluded, unmark_marked noExtra,
    unmark_marked plain.umbrella]
  rfl

theorem lineFeed_notMem_lineOf {h : Header} (plain : Plain h.path.chars) : '\n' ∉ lineOf h := by
  have name : '\n' ∉ h.visibility.name.toList := by cases h.visibility <;> decide
  have path : '\n' ∉ markedPath h :=
    notMem_marked (notMem_marked (notMem_marked plain.oneLine (by decide) _) (by decide) _)
      (by decide) _
  rw [lineOf, List.mem_append, List.mem_cons, not_or, not_or]
  exact ⟨name, by decide, path⟩

theorem split_lines {ls : List (List Char)} (single : ∀ l ∈ ls, '\n' ∉ l) :
    Text.split '\n' (ls.flatMap (· ++ ['\n'])) = ls ++ [[]] := by
  induction ls with
  | nil => rfl
  | cons l ls ih =>
    obtain ⟨here, others⟩ := List.forall_mem_cons.mp single
    rw [List.flatMap_cons, List.append_assoc, List.singleton_append, Text.split_append here,
      ih others, List.cons_append]

theorem lines?_lines {ls : List (List Char)} (single : ∀ l ∈ ls, '\n' ∉ l) :
    lines? (ls.flatMap (· ++ ['\n'])) = some ls := by
  rw [lines?, split_lines single, List.reverse_concat]
  exact congrArg some (List.reverse_reverse ls)

theorem mapM_readLine? {hs : List Header} (plain : ∀ h ∈ hs, Plain h.path.chars) :
    (hs.map lineOf).mapM readLine? = some (hs.map entryOf) := by
  induction hs with
  | nil => rfl
  | cons h hs ih =>
    obtain ⟨here, others⟩ := List.forall_mem_cons.mp plain
    rw [List.map_cons, List.mapM_cons, readLine?_lineOf here, ih others]
    rfl

/-- A text report with all headers is read back line by line, if every path is on one line and ends
in no mark: as many headers, in their order, each with its class, its path and its flags. A report
without the excluded headers is the one with all headers of the set that has no others. -/
theorem text_read_back (r : Resolution) :
    ((∀ h ∈ r.headers, Plain h.path.chars) →
      read? (text r true) = some (r.headers.map entryOf)) ∧
    text r false = text { r with headers := r.headers.filter fun h => !h.isExcluded } true := by
  refine ⟨fun plain => ?_, rfl⟩
  have single : ∀ l ∈ r.headers.map lineOf, '\n' ∉ l :=
    List.forall_mem_map.mpr fun h mem => lineFeed_notMem_lineOf (plain h mem)
  have written : (text r true).toList = (r.headers.map lineOf).flatMap (· ++ ['\n']) := by
    rw [text, if_pos rfl, String.toList_join, List.flatMap_map, List.flatMap_map]
    exact List.flatMap_congr fun h _ => toList_line h
  rw [read?, written, lines?_lines single]
  exact mapM_readLine? plain

instance (path : List Char) : Decidable (Plain path) :=
  decidable_of_iff ('\n' ∉ path ∧ ¬umbrellaMark.toList <:+ path ∧ ¬extraMark.toList <:+ path ∧
    ¬excludedMark.toList <:+ path)
    ⟨fun ⟨oneLine, umbrella, extra, excluded⟩ => ⟨oneLine, umbrella, extra, excluded⟩,
      fun plain => ⟨plain.oneLine, plain.umbrella, plain.extra, plain.excluded⟩⟩

/-- A path with a mark in it, and a path that goes on behind a tab. -/
def markedResolution : Resolution where
  headers :=
    [⟨.ofString "/S/Foo [extra].h", .pub, none, true, false, true⟩,
      ⟨.ofString "/S/a\tb [umbrella] ", .proj, none, false, true, false⟩]
  warnings := []

theorem markedResolution_read_back :
    (∀ h ∈ markedResolution.headers, Plain h.path.chars) ∧
      read? (text markedResolution true) =
        some [⟨.pub, "/S/Foo [extra].h".toList, true, true, false⟩,
          ⟨.proj, "/S/a\tb [umbrella] ".toList, false, false, true⟩] := by
  have plain : ∀ h ∈ markedResolution.headers, Plain h.path.chars := by decide
  refine ⟨plain, ((text_read_back markedResolution).1 plain).trans ?_⟩
  simp only [markedResolution, List.map_cons, List.map_nil, entryOf, Path.chars_ofString]

end LibraryHeaders.Report
