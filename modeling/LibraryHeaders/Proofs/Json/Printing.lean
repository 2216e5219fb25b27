import LibraryHeaders.Proofs.Json.Documents

/-!
# Printed documents

Both layouts of a value are written documents: the line breaks and the indentation are blanks, an
escaped character is spelt as an escape may be, and a number stands in front of a comma, a blank or
the end of its container. What is read of a printed value is that value again, but for numbers:
`Number.reread` is what the scanner makes of a printed number.
-/

namespace LibraryHeaders.Json

/-- What is read where the number is printed. -/
def Number.reread (n : Number) : Except Fault Number :=
  match Number.scan (Printer.number n) with
  | .literal l _ => l.value
  | .broken f _ => .error f

namespace Value

mutual

/-- The document that is read where the value is printed. -/
def draft : Value → Draft
  | .null => .null
  | .bool b => .bool b
  | .number n => .number n.reread
  | .string s => .string (.ok s)
  | .list vs => .list (drafts vs) none
  | .object ms => .object (memberDrafts ms) none

def drafts : List Value → List Draft
  | [] => []
  | v :: vs => draft v :: drafts vs

def memberDrafts : List (String × Value) → List Draft.Member
  | [] => []
  | (k, v) :: ms => (.ok k, draft v) :: memberDrafts ms

end

/-- Every number of the value is read as it was before it was printed. -/
inductive Exact : Value → Prop where
  | null : Exact .null
  | bool (b : Bool) : Exact (.bool b)
  | number {n : Number} (same : n.reread = .ok n) : Exact (.number n)
  | string (s : String) : Exact (.string s)
  | list {vs : List Value} (items : ∀ v ∈ vs, Exact v) : Exact (.list vs)
  | object {ms : List (String × Value)} (members : ∀ m ∈ ms, Exact m.2) : Exact (.object ms)

end Value

namespace Printer

open Draft Token

variable {p : Phrase} {d : Draft} {ds : List Draft} {ms : List Member} {w w' b s : List Char}
  {t : Token}

/-! ## Texts that print a phrase -/

/-- The text is the phrase, wherever what follows does not go on as a number would. -/
def Prints (w : List Char) (p : Phrase) : Prop :=
  ∃ ts, p.Spelt ts ∧ ∀ {ts' s}, Lexes ts' s → Number.Stops s → Lexes (ts ++ ts') (w ++ s)

theorem Prints.written (prints : Prints w (.value d)) : d.Written w := by
  obtain ⟨ts, spelt, lexes⟩ := prints
  have all := lexes .nil .nil
  rw [List.append_nil, List.append_nil] at all
  exact ⟨ts, spelt, all⟩

theorem stops_cons {c : Char} (other : c.isDigit = false ∧ c ≠ '.' ∧ c ≠ 'e' ∧ c ≠ 'E') :
    Number.Stops (c :: s) := by
  rintro _ ⟨rfl⟩
  exact other

theorem prints_token (spelt : p.Spelt [t]) (word : t.Spelt w) : Prints w p :=
  ⟨[t], spelt, fun lexes stops => .token word (fun _ _ => stops) lexes⟩

theorem Prints.behind_blanks (spaces : ∀ c ∈ b, isSpace c = true) (prints : Prints w p) :
    Prints (b ++ w) p := by
  obtain ⟨ts, spelt, lexes⟩ := prints
  refine ⟨ts, spelt, fun rest stops => ?_⟩
  rw [List.append_assoc]
  exact (lexes rest stops).blanks spaces

theorem stops_blanks (spaces : ∀ c ∈ b, isSpace c = true) (stops : Number.Stops s) :
    Number.Stops (b ++ s) := by
  cases b with
  | nil => exact stops
  | cons c b =>
    have space := spaces c List.mem_cons_self
    refine stops_cons ⟨?_, ?_, ?_, ?_⟩
    · simp only [isSpace, Bool.or_eq_true, beq_iff_eq] at space
      rcases space with ((rfl | rfl) | rfl) | rfl <;> rfl
    all_goals
      rintro rfl
      cases space

theorem Prints.before_blanks (spaces : ∀ c ∈ b, isSpace c = true) (prints : Prints w p) :
    Prints (w ++ b) p := by
  obtain ⟨ts, spelt, lexes⟩ := prints
  refine ⟨ts, spelt, fun rest stops => ?_⟩
  rw [List.append_assoc]
  exact lexes (rest.blanks spaces) (stops_blanks spaces stops)

theorem Prints.list (inner : Prints w (.items ds)) :
    Prints ('[' :: (w ++ [']'])) (.value (.list ds none)) := by
  obtain ⟨ts, spelt, lexes⟩ := inner
  refine ⟨_, .list spelt, fun {ts' s} rest _ => ?_⟩
  have close : Lexes (.closeList :: ts') (']' :: s) := .token .closeList nofun rest
  have inside := lexes close (stops_cons (by decide))
  rw [List.cons_append, List.cons_append, List.append_assoc, List.append_assoc]
  exact .token .openList nofun inside

theorem Prints.object (inner : Prints w (.members ms)) :
    Prints ('{' :: (w ++ ['}'])) (.value (.object ms none)) := by
  obtain ⟨ts, spelt, lexes⟩ := inner
  refine ⟨_, .object spelt, fun {ts' s} rest _ => ?_⟩
  have close : Lexes (.closeObject :: ts') ('}' :: s) := .token .closeObject nofun rest
  have inside := lexes close (stops_cons (by decide))
  rw [List.cons_append, List.cons_append, List.append_assoc, List.append_assoc]
  exact .token .openObject nofun inside

theorem prints_emptyList : Prints ['[', ']'] (.value (.list [] none)) := by
  refine ⟨_, .emptyList, fun {ts' s} rest _ => ?_⟩
  have close : Lexes (.closeList :: ts') (']' :: s) := .token .closeList nofun rest
  have opened : Lexes (.openList :: .closeList :: ts') ('[' :: ']' :: s) :=
    .token .openList nofun close
  exact opened

theorem prints_emptyObject : Prints ['{', '}'] (.value (.object [] none)) := by
  refine ⟨_, .emptyObject, fun {ts' s} rest _ => ?_⟩
  have close : Lexes (.closeObject :: ts') ('}' :: s) := .token .closeObject nofun rest
  have opened : Lexes (.openObject :: .closeObject :: ts') ('{' :: '}' :: s) :=
    .token .openObject nofun close
  exact opened

theorem Prints.item (last : Prints w (.value d)) : Prints w (.items [d]) := by
  obtain ⟨ts, spelt, lexes⟩ := last
  exact ⟨ts, .item spelt, lexes⟩

theorem Prints.items (first : Prints w (.value d)) (others : Prints w' (.items ds)) :
    Prints (w ++ ',' :: w') (.items (d :: ds)) := by
  obtain ⟨ts, spelt, lexes⟩ := first
  obtain ⟨us, spelt', lexes'⟩ := others
  refine ⟨_, .items spelt spelt', fun {ts' s} rest stops => ?_⟩
  have behind : Lexes (.comma :: (us ++ ts')) (',' :: (w' ++ s)) :=
    .token .comma nofun (lexes' rest stops)
  rw [List.append_assoc, List.append_assoc]
  exact lexes behind (stops_cons (by decide))

theorem quote_spelt (k : String) : Token.Spelt (.string (.ok k)) (quote k) := by
  obtain ⟨ps, spells, denotes⟩ := escape_spells k.toList
  have spelt := Token.Spelt.string spells
  rw [characters_eq_ok_iff.mpr denotes, Except.map, String.ofList_toList] at spelt
  exact spelt

theorem Prints.member (k : String) (last : Prints w (.value d)) :
    Prints (quote k ++ ':' :: w) (.members [(.ok k, d)]) := by
  obtain ⟨ts, spelt, lexes⟩ := last
  refine ⟨_, .member (.ok k) spelt, fun {ts' s} rest stops => ?_⟩
  have behind : Lexes (.colon :: (ts ++ ts')) (':' :: (w ++ s)) :=
    .token .colon nofun (lexes rest stops)
  rw [List.append_assoc]
  exact .token (quote_spelt k) nofun behind

theorem Prints.members (k : String) (first : Prints w (.value d))
    (others : Prints w' (.members ms)) :
    Prints (quote k ++ ':' :: (w ++ ',' :: w')) (.members ((.ok k, d) :: ms)) := by
  obtain ⟨ts, spelt, lexes⟩ := first
  obtain ⟨us, spelt', lexes'⟩ := others
  refine ⟨_, .members (.ok k) spelt spelt', fun {ts' s} rest stops => ?_⟩
  have behind : Lexes (.comma :: (us ++ ts')) (',' :: (w' ++ s)) :=
    .token .comma nofun (lexes' rest stops)
  have inside := lexes behind (stops_cons (by decide))
  have value : Lexes (.colon :: (ts ++ .comma :: (us ++ ts'))) (':' :: (w ++ ',' :: (w' ++ s))) :=
    .token .colon nofun inside
  simp only [List.append_assoc, List.cons_append]
  exact .token (quote_spelt k) nofun value

/-! ## The layouts -/

theorem prints_number (n : Number) : Prints (number n) (.value (.number n.reread)) := by
  obtain ⟨l, spelt⟩ := Number.exists_spelt_number n
  have scanned := Number.scan_of_spelt spelt Number.Stops.nil
  rw [List.append_nil] at scanned
  have value : n.reread = l.value := by rw [Number.reread, scanned]
  rw [value]
  exact prints_token (.number _) (.number spelt)

theorem prints_string (k : String) : Prints (quote k) (.value (.string (.ok k))) :=
  prints_token (.string _) (quote_spelt k)

mutual

theorem prints_compact (v : Value) : Prints (compact v) (.value v.draft) := by
  match v with
  | .null => exact prints_token .null .null
  | .bool true => exact prints_token (.bool true) .yes
  | .bool false => exact prints_token (.bool false) .no
  | .number n => exact prints_number n
  | .string k => exact prints_string k
  | .list [] => exact prints_emptyList
  | .list (v :: vs) => exact (prints_compactItems (v :: vs) (List.cons_ne_nil _ _)).list
  | .object [] => exact prints_emptyObject
  | .object (m :: ms) => exact (prints_compactMembers (m :: ms) (List.cons_ne_nil _ _)).object

theorem prints_compactItems (vs : List Value) (nonempty : vs ≠ []) :
    Prints (compactItems vs) (.items (Value.drafts vs)) := by
  match vs with
  | [] => exact absurd rfl nonempty
  | [v] => exact (prints_compact v).item
  | v :: v' :: vs =>
    have others := prints_compactItems (v' :: vs) (List.cons_ne_nil _ _)
    exact (prints_compact v).items others

theorem prints_compactMembers (ms : List (String × Value)) (nonempty : ms ≠ []) :
    Prints (compactMembers ms) (.members (Value.memberDrafts ms)) := by
  match ms with
  | [] => exact absurd rfl nonempty
  | [(k, v)] => exact (prints_compact v).member k
  | (k, v) :: m :: ms =>
    have others := prints_compactMembers (m :: ms) (List.cons_ne_nil _ _)
    exact (prints_compact v).members k others

end

theorem isSpace_line (level : Nat) : ∀ c ∈ line level, isSpace c = true := by
  intro c mem
  rcases List.mem_cons.mp mem with rfl | mem
  · rfl
  · rw [List.eq_of_mem_replicate mem]
    rfl

theorem isSpace_space : ∀ c ∈ [' '], isSpace c = true := List.forall_mem_singleton.mpr rfl

mutual

theorem prints_pretty (level : Nat) (v : Value) : Prints (pretty level v) (.value v.draft) := by
  match v with
  | .null => exact prints_token .null .null
  | .bool true => exact prints_token (.bool true) .yes
  | .bool false => exact prints_token (.bool false) .no
  | .number n => exact prints_number n
  | .string k => exact prints_string k
  | .list [] => exact prints_emptyList
  | .list (v :: vs) =>
    have items := prints_prettyItems (level + 1) (prints_pretty (level + 1) v) vs
    have inner :=
      (items.behind_blanks (isSpace_line (level + 1))).before_blanks (isSpace_line level)
    rw [← List.append_assoc] at inner
    exact inner.list
  | .object [] => exact prints_emptyObject
  | .object ((k, v) :: ms) =>
    have value := (prints_pretty (level + 1) v).behind_blanks isSpace_space
    have members := prints_prettyMembers (level + 1) k value ms
    have inner :=
      (members.behind_blanks (isSpace_line (level + 1))).before_blanks (isSpace_line level)
    rw [← List.append_assoc, ← List.append_assoc] at inner
    exact inner.object

/-- The items behind a first one that is printed. -/
theorem prints_prettyItems (level : Nat) {d : Draft} {w : List Char}
    (first : Prints w (.value d)) (vs : List Value) :
    Prints (w ++ prettyItems level vs) (.items (d :: Value.drafts vs)) := by
  match vs with
  | [] =>
    rw [prettyItems, List.append_nil]
    exact first.item
  | v :: vs =>
    have others := prints_prettyItems level (prints_pretty level v) vs
    have inner := others.behind_blanks (isSpace_line level)
    rw [← List.append_assoc] at inner
    exact first.items inner

/-- The members behind a first one that is printed. -/
theorem prints_prettyMembers (level : Nat) (k : String) {d : Draft} {w : List Char}
    (first : Prints w (.value d)) (ms : List (String × Value)) :
    Prints (quote k ++ ':' :: w ++ prettyMembers level ms)
      (.members ((.ok k, d) :: Value.memberDrafts ms)) := by
  match ms with
  | [] =>
    rw [prettyMembers, List.append_nil]
    exact first.member k
  | (k', v) :: ms =>
    have value := (prints_pretty level v).behind_blanks isSpace_space
    have others := prints_prettyMembers level k' value ms
    have inner := others.behind_blanks (isSpace_line level)
    rw [← List.append_assoc, ← List.append_assoc] at inner
    rw [List.append_assoc, List.cons_append]
    exact first.members k inner

end

end Printer

namespace Value

open Printer

theorem written_compact (v : Value) : v.draft.Written v.compact.toList := by
  rw [compact, String.toList_ofList]
  exact (prints_compact v).written

theorem written_pretty (v : Value) : v.draft.Written v.pretty.toList := by
  rw [pretty, String.toList_ofList]
  exact (prints_pretty 0 v).written

theorem ofDrafts_drafts {vs : List Value} (each : ∀ v ∈ vs, ofDraft v.draft = .ok v) :
    ofDrafts (drafts vs) = .ok vs := by
  induction vs with
  | nil => rfl
  | cons v vs ih =>
    obtain ⟨first, others⟩ := List.forall_mem_cons.mp each
    rw [drafts, ofDrafts, first, ih others]
    rfl

theorem ofMembers_memberDrafts {ms : List (String × Value)}
    (each : ∀ m ∈ ms, ofDraft m.2.draft = .ok m.2) : ofMembers (memberDrafts ms) = .ok ms := by
  induction ms with
  | nil => rfl
  | cons m ms ih =>
    obtain ⟨k, v⟩ := m
    obtain ⟨first, others⟩ := List.forall_mem_cons.mp each
    rw [memberDrafts, ofMembers, first, ih others]
    rfl

theorem Exact.ofDraft_draft {v : Value} (exact : v.Exact) : ofDraft v.draft = .ok v := by
  induction exact with
  | null | bool | string => rfl
  | number same =>
    rw [draft, ofDraft, same]
    rfl
  | list _ ih =>
    rw [draft, ofDraft, ofDrafts_drafts ih]
    rfl
  | object _ ih =>
    rw [draft, ofDraft, ofMembers_memberDrafts ih]
    rfl

/-- A value is read back from any text in which it is written. -/
theorem Exact.ofText_written {v : Value} (exact : v.Exact) {s : List Char}
    (written : v.draft.Written s) : ofText s = .ok v := by
  rw [ofText, written.ofText]
  dsimp only
  rw [exact.ofDraft_draft]
  rfl

theorem Exact.ofText_compact {v : Value} (exact : v.Exact) : ofText v.compact.toList = .ok v :=
  exact.ofText_written v.written_compact

theorem Exact.ofText_pretty {v : Value} (exact : v.Exact) : ofText v.pretty.toList = .ok v :=
  exact.ofText_written v.written_pretty

end Value

end LibraryHeaders.Json
