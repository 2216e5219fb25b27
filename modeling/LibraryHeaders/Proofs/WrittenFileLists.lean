import LibraryHeaders.Proofs.FileLists
import LibraryHeaders.Proofs.Json.Printing

/-!
# Writing file lists

A file list is written as an object with its version and its headers, each of them an object with a
class and a path. Such an object may hold other members too, in any order. Whatever the characters
of a path are, its text brings back exactly that path, so reading what is written adds the entries
as they were.
-/

namespace LibraryHeaders.FileList

open Json

/-- The members hold the key once, with this value. -/
def Once (key : String) (v : Value) (ms : List (String × Value)) : Prop :=
  ms.filter (·.1 == key) = [(key, v)]

/-- An object with the class and the path of the entry. -/
inductive WritesEntry (e : Visibility × String) : Value → Prop where
  | object {ms : List (String × Value)} (visibility : Once "type" (.string e.1.name) ms)
      (path : Once "path" (.string e.2) ms) : WritesEntry e (.object ms)

/-- An object with the version and with an object for each entry. -/
inductive WritesList (version : String) (entries : List (Visibility × String)) : Value → Prop where
  | object {ms : List (String × Value)} {items : List Value}
      (atVersion : Once "version" (.string version) ms)
      (atHeaders : Once "headers" (.list items) ms)
      (each : List.Forall₂ WritesEntry entries items) : WritesList version entries (.object ms)

variable {ms : List (String × Value)} {key : String} {v : Value}

theorem text_of_mem_memberDrafts :
    ∀ m ∈ Value.memberDrafts ms, ∃ k, m.1 = .ok k := by
  induction ms with
  | nil => nofun
  | cons m ms ih => exact List.forall_mem_cons.mpr ⟨⟨m.1, rfl⟩, ih⟩

theorem under_memberDrafts (key : String) (ms : List (String × Value)) :
    under key (Value.memberDrafts ms) = (ms.filter (·.1 == key)).map (·.2.draft) := by
  induction ms with
  | nil => rfl
  | cons m ms ih =>
    obtain ⟨k, v⟩ := m
    rw [Value.memberDrafts, under, ih]
    by_cases same : k = key <;> simp [same]

theorem Once.under (once : Once key v ms) :
    under key (Value.memberDrafts ms) = [v.draft] := by
  rw [under_memberDrafts, once]
  rfl

theorem WritesEntry.isEntry {e : Visibility × String} (concrete : e.1 ∈ Visibility.concrete)
    (writes : WritesEntry e v) : IsEntry e v.draft := by
  cases writes with
  | object visibility path =>
    exact ⟨_, .object text_of_mem_memberDrafts visibility.under path.under, .word concrete⟩

theorem isEntry_drafts {entries : List (Visibility × String)} {items : List Value}
    (concrete : ∀ e ∈ entries, e.1 ∈ Visibility.concrete)
    (each : List.Forall₂ WritesEntry entries items) :
    List.Forall₂ IsEntry entries (Value.drafts items) := by
  induction each with
  | nil => exact .nil
  | cons writes _ ih =>
    obtain ⟨here, others⟩ := List.forall_mem_cons.mp concrete
    exact .cons (writes.isEntry here) (ih others)

theorem WritesList.isFileList {version : String} {entries : List (Visibility × String)}
    (concrete : ∀ e ∈ entries, e.1 ∈ Visibility.concrete) (writes : WritesList version entries v) :
    IsFileList version entries v.draft := by
  cases writes with
  | object atVersion atHeaders each =>
    exact ⟨_, .object text_of_mem_memberDrafts atVersion.under atHeaders.under,
      isEntry_drafts concrete each⟩

/-- A file list that is written on one line, over several lines or in any other spelling of the same
document is read as its entries: one header each, in order, with the class and the path of the
entry, no name and no flag, behind the headers that are there. -/
theorem append_written_list {version : String} (supported : version ∈ supportedVersions)
    {entries : List (Visibility × String)}
    (valid : ∀ e ∈ entries, e.1 ∈ Visibility.concrete ∧ e.2 ≠ "") {document : Value}
    (writes : WritesList version entries document) {text : String}
    (layout : text = document.compact ∨ text = document.pretty ∨
      document.draft.Written text.toList) (origin : Path) (hs : List Header) :
    append text origin hs =
      (hs ++ entries.map fun e => ⟨.ofString e.2, e.1, none, false, false, false⟩, .ok ()) := by
  have written : document.draft.Written text.toList := by
    rcases layout with rfl | rfl | written
    · exact document.written_compact
    · exact document.written_pretty
    · exact written
  have form := writes.isFileList fun e mem => (valid e mem).1
  exact append_all_of_holds ⟨_, written, form⟩ supported (fun e mem => (valid e mem).2) origin hs

/-- An entry with its members in another order, and one more. -/
def oneEntry : Value :=
  .object [("path", .string "/S/\"𝄞\".h"), ("language", .string "c"), ("type", .string "private")]

def oneListed : Value := .object [("version", .string "3"), ("headers", .list [oneEntry])]

theorem oneListed_writes : WritesList "3" [(.priv, "/S/\"𝄞\".h")] oneListed := by
  have entry : WritesEntry (.priv, "/S/\"𝄞\".h") oneEntry := .object rfl rfl
  exact .object rfl rfl (.cons entry .nil)

theorem append_oneListed :
    append oneListed.pretty (.ofString "/S/list") [] =
      ([⟨.ofString "/S/\"𝄞\".h", .priv, none, false, false, false⟩], .ok ()) := by
  have supported : "3" ∈ supportedVersions := by decide
  exact append_written_list supported (by decide) oneListed_writes (Or.inr (Or.inl rfl)) _ []

end LibraryHeaders.FileList
