import LibraryHeaders.Proofs.Json.Printing
import LibraryHeaders.Report
import Mathlib.Data.List.Forall2

/-!
# Reading reports

A reader of JSON gets from the text of a report what the resolution says: every header with its
path, class, name and flags, and every warning, in their order. A report holds no numbers, so it is
read back as it was.
-/

namespace LibraryHeaders.Report

open Json

/-- The value is an object with just these keys, in this order. -/
def HasKeys (keys : List String) (v : Value) : Prop := ∃ ms, v = .object ms ∧ ms.map (·.1) = keys

/-- The object says of the header all there is to say; it has a name exactly if the header has. -/
structure TellsHeader (h : Header) (v : Value) : Prop where
  keys : HasKeys (["path", "visibility"] ++ (h.includeName.map fun _ => "include_name").toList ++
    ["is_extra", "is_excluded", "is_umbrella"]) v
  path : v.get? "path" = some (.string h.path.text)
  visibility : v.get? "visibility" = some (.string h.visibility.name)
  includeName : v.get? "include_name" = h.includeName.map .string
  isExtra : v.get? "is_extra" = some (.bool h.isExtra)
  isExcluded : v.get? "is_excluded" = some (.bool h.isExcluded)
  isUmbrella : v.get? "is_umbrella" = some (.bool h.isUmbrella)

structure TellsWarning (w : Warning) (v : Value) : Prop where
  keys : HasKeys ["kind", "pattern", "class"] v
  kind : v.get? "kind" = some (.string "glob_did_not_match")
  pattern : v.get? "pattern" = some (.string w.pattern)
  visibility : v.get? "class" = some (.string w.visibility.name)

/-- The object has the name of the framework, or null, and an object for each header and each
warning. -/
structure Tells (r : Resolution) (framework : Option String) (v : Value) : Prop where
  keys : HasKeys ["framework", "headers", "warnings"] v
  framework : v.get? "framework" = some ((framework.map Value.string).getD .null)
  headers : ∃ vs, v.get? "headers" = some (.list vs) ∧ List.Forall₂ TellsHeader r.headers vs
  warnings : ∃ vs, v.get? "warnings" = some (.list vs) ∧ List.Forall₂ TellsWarning r.warnings vs

theorem tellsHeader_headerJson (h : Header) : TellsHeader h (headerJson h) := by
  obtain ⟨path, visibility, includeName, isExtra, isExcluded, isUmbrella⟩ := h
  cases includeName with
  | none => exact ⟨⟨_, rfl, rfl⟩, rfl, rfl, rfl, rfl, rfl, rfl⟩
  | some n => exact ⟨⟨_, rfl, rfl⟩, rfl, rfl, rfl, rfl, rfl, rfl⟩

theorem tellsWarning_warningJson (w : Warning) : TellsWarning w (warningJson w) :=
  ⟨⟨_, rfl, rfl⟩, rfl, rfl, rfl⟩

theorem forall₂_map {α β : Type} {tells : α → β → Prop} {f : α → β} (each : ∀ a, tells a (f a))
    (as : List α) : List.Forall₂ tells as (as.map f) := by
  rw [List.forall₂_map_right_iff, List.forall₂_same]
  exact fun a _ => each a

theorem tells_document (r : Resolution) (framework : Option String) :
    Tells r framework (document r framework) := by
  refine ⟨⟨_, rfl, rfl⟩, rfl, ⟨_, rfl, ?_⟩, ⟨_, rfl, ?_⟩⟩
  · exact forall₂_map tellsHeader_headerJson r.headers
  · exact forall₂_map tellsWarning_warningJson r.warnings

/-! ## No numbers -/

theorem exact_headerJson (h : Header) : (headerJson h).Exact := by
  refine .object fun m mem => ?_
  rcases List.mem_append.mp mem with mem | mem
  · rcases List.mem_append.mp mem with mem | mem
    · simp only [List.mem_cons, List.not_mem_nil, or_false] at mem
      rcases mem with rfl | rfl <;> exact .string _
    · obtain ⟨n, -, rfl⟩ := by simpa using mem
      exact .string n
  · simp only [List.mem_cons, List.not_mem_nil, or_false] at mem
    rcases mem with rfl | rfl | rfl <;> exact .bool _

theorem exact_warningJson (w : Warning) : (warningJson w).Exact := by
  refine .object fun m mem => ?_
  simp only [List.mem_cons, List.not_mem_nil, or_false] at mem
  rcases mem with rfl | rfl | rfl <;> exact .string _

theorem exact_document (r : Resolution) (framework : Option String) :
    (document r framework).Exact := by
  refine .object fun m mem => ?_
  simp only [List.mem_cons, List.not_mem_nil, or_false] at mem
  rcases mem with rfl | rfl | rfl
  · cases framework with
    | none => exact .null
    | some n => exact .string n
  · exact .list (List.forall_mem_map.mpr fun h _ => exact_headerJson h)
  · exact .list (List.forall_mem_map.mpr fun w _ => exact_warningJson w)

/-- The text of a report is a JSON document, and what is read from it tells the framework, the
headers and the warnings. -/
theorem json_read_back (r : Resolution) (framework : Option String) :
    ∃ v, v.draft.Written (json r framework).toList ∧
      Value.ofText (json r framework).toList = .ok v ∧ Tells r framework v := by
  refine ⟨document r framework, (document r framework).written_pretty, ?_, ?_⟩
  · exact (exact_document r framework).ofText_pretty
  · exact tells_document r framework

end LibraryHeaders.Report
