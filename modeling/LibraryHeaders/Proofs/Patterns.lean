import LibraryHeaders.Proofs.Occurrences

/-!
# Patterns with runs

Conventions about paths are often written as a pattern: texts, runs of characters whose content is
kept, and perhaps the end. A pattern is looked for from left to right, and each of its runs takes as
many characters as the rest of the pattern allows. `read?` and `search?` do this by trying out;
`Reads` says what is found apart from the order of the trials, and `read?_run` which of the ways is
the first one.
-/

namespace LibraryHeaders.Text

inductive Part where
  | text (t : List Char)
  /-- A text that may be missing. -/
  | optional (t : List Char)
  /-- One or more characters that satisfy a condition. -/
  | run (ok : Char → Bool)
  /-- The end of the whole text. -/
  | finish

/-- The nonempty runs in front of a text with what is behind them, the longest first. -/
def runs (ok : Char → Bool) : List Char → List (List Char × List Char)
  | [] => []
  | c :: s =>
    if ok c then (runs ok s).map (fun cut => (c :: cut.1, cut.2)) ++ [([c], s)] else []

/-- Reads a pattern off the front of a text; what the runs have taken. -/
def read? : List Part → List Char → Option (List (List Char))
  | [], _ => some []
  | .text t :: ps, s => (after? t s).bind (read? ps)
  | .optional t :: ps, s => ((after? t s).bind (read? ps)).or (read? ps s)
  | .run ok :: ps, s => (runs ok s).findSome? fun cut => (read? ps cut.2).map (cut.1 :: ·)
  | .finish :: ps, s => if s = [] then read? ps s else none

/-- Reads a pattern at the first place of a text where that is possible. -/
def search? (ps : List Part) : List Char → Option (List (List Char))
  | [] => read? ps []
  | c :: s => (read? ps (c :: s)).or (search? ps s)

/-- A pattern stands in front of a text, in any way; what the runs have taken. -/
def Reads : List Part → List Char → List (List Char) → Prop
  | [], _, taken => taken = []
  | .text t :: ps, s, taken => ∃ rest, s = t ++ rest ∧ Reads ps rest taken
  | .optional t :: ps, s, taken => (∃ rest, s = t ++ rest ∧ Reads ps rest taken) ∨ Reads ps s taken
  | .run ok :: ps, s, taken => ∃ r rest others, s = r ++ rest ∧ taken = r :: others ∧ r ≠ [] ∧
      (∀ c ∈ r, ok c = true) ∧ Reads ps rest others
  | .finish :: ps, s, taken => s = [] ∧ Reads ps s taken

variable {ok : Char → Bool} {ps : List Part} {s : List Char} {taken : List (List Char)}

/-- What a run of other characters than one may take. -/
theorem forall_bne_iff {c : Char} {s : List Char} : (∀ d ∈ s, (d != c) = true) ↔ c ∉ s := by
  simp [List.forall_mem_ne']

theorem mem_runs_iff {r rest : List Char} :
    (r, rest) ∈ runs ok s ↔ s = r ++ rest ∧ r ≠ [] ∧ ∀ c ∈ r, ok c = true := by
  induction s generalizing r with
  | nil =>
    simp only [runs, List.not_mem_nil, false_iff]
    rintro ⟨parts, nonempty, _⟩
    exact nonempty (List.append_eq_nil_iff.mp parts.symm).1
  | cons c s ih =>
    cases good : ok c with
    | false =>
      simp only [runs, good, Bool.false_eq_true, if_false, List.not_mem_nil, false_iff]
      rintro ⟨parts, nonempty, each⟩
      obtain ⟨first, r, rfl⟩ := List.exists_cons_of_ne_nil nonempty
      obtain ⟨rfl, _⟩ := List.cons.inj parts
      have firstGood := each c List.mem_cons_self
      simp [good] at firstGood
    | true =>
      simp only [runs, good, if_true, List.mem_append, List.mem_map, List.mem_singleton,
        Prod.mk.injEq, Prod.exists]
      constructor
      · rintro (⟨r, rest, inRuns, rfl, rfl⟩ | ⟨rfl, rfl⟩)
        · obtain ⟨parts, _, each⟩ := ih.mp inRuns
          exact ⟨by simp [parts], List.cons_ne_nil _ _, List.forall_mem_cons.mpr ⟨good, each⟩⟩
        · exact ⟨rfl, List.cons_ne_nil _ _, by simpa using good⟩
      · rintro ⟨parts, nonempty, each⟩
        obtain ⟨first, r, rfl⟩ := List.exists_cons_of_ne_nil nonempty
        obtain ⟨rfl, behind⟩ := List.cons.inj parts
        by_cases single : r = []
        · exact Or.inr ⟨by rw [single], by simp [behind, single]⟩
        · have inRuns := ih.mpr ⟨behind, single, (List.forall_mem_cons.mp each).2⟩
          exact Or.inl ⟨r, rest, inRuns, rfl, rfl⟩

theorem runs_descending : (runs ok s).Pairwise fun a b => b.1.length < a.1.length := by
  induction s with
  | nil => exact .nil
  | cons c s ih =>
    rw [runs]
    split
    · rw [List.pairwise_append, List.pairwise_map]
      refine ⟨by simpa using ih, List.pairwise_singleton _ _, ?_⟩
      simp only [List.mem_map, List.mem_singleton]
      rintro _ ⟨⟨r, rest⟩, inRuns, rfl⟩ _ rfl
      have nonempty := (mem_runs_iff.mp inRuns).2.1
      have positive := List.length_pos_iff.mpr nonempty
      simpa using positive
    · exact .nil

theorem reads_of_read? (found : read? ps s = some taken) : Reads ps s taken := by
  induction ps generalizing s taken with
  | nil =>
    cases found
    exact rfl
  | cons p ps ih =>
    cases p with
    | text t =>
      obtain ⟨rest, here, later⟩ := Option.bind_eq_some_iff.mp found
      exact ⟨rest, after?_eq_some_iff.mp here, ih later⟩
    | optional t =>
      rcases Option.or_eq_some_iff.mp found with there | ⟨_, missing⟩
      · obtain ⟨rest, here, later⟩ := Option.bind_eq_some_iff.mp there
        exact Or.inl ⟨rest, after?_eq_some_iff.mp here, ih later⟩
      · exact Or.inr (ih missing)
    | run ok =>
      obtain ⟨_, ⟨r, rest⟩, _, cuts, here, _⟩ := List.findSome?_eq_some_iff.mp found
      obtain ⟨others, later, rfl⟩ := Option.map_eq_some_iff.mp here
      have inRuns : (r, rest) ∈ runs ok s := by simp [cuts]
      obtain ⟨parts, nonempty, each⟩ := mem_runs_iff.mp inRuns
      exact ⟨r, rest, others, parts, rfl, nonempty, each, ih later⟩
    | finish =>
      by_cases empty : s = []
      · simp only [read?, if_pos empty] at found
        exact ⟨empty, ih found⟩
      · simp [read?, empty] at found

/-- What can be read in some way is read. -/
theorem Reads.isSome (reads : Reads ps s taken) : (read? ps s).isSome = true := by
  induction ps generalizing s taken with
  | nil => rfl
  | cons p ps ih =>
    cases p with
    | text t =>
      obtain ⟨rest, parts, later⟩ := reads
      simpa [read?, after?_eq_some_iff.mpr parts] using ih later
    | optional t =>
      rcases reads with ⟨rest, parts, later⟩ | missing
      · simp [read?, after?_eq_some_iff.mpr parts, ih later]
      · simp [read?, ih missing]
    | run ok =>
      obtain ⟨r, rest, others, parts, _, nonempty, each, later⟩ := reads
      obtain ⟨found, readsRest⟩ := Option.isSome_iff_exists.mp (ih later)
      simp only [read?, List.findSome?_isSome_iff]
      exact ⟨(r, rest), mem_runs_iff.mpr ⟨parts, nonempty, each⟩, by simp [readsRest]⟩
    | finish =>
      obtain ⟨rfl, later⟩ := reads
      simpa [read?] using ih later

theorem read?_eq_none_iff : read? ps s = none ↔ ∀ taken, ¬ Reads ps s taken := by
  constructor
  · intro missing taken reads
    have found := reads.isSome
    simp [missing] at found
  · intro never
    cases found : read? ps s with
    | none => rfl
    | some taken => exact absurd (reads_of_read? found) (never taken)

theorem read?_text (t rest : List Char) : read? (.text t :: ps) (t ++ rest) = read? ps rest := by
  have here : after? t (t ++ rest) = some rest := after?_eq_some_iff.mpr rfl
  simp [read?, here]

/-- A run takes all that leaves something to be read by the rest of the pattern. -/
theorem read?_run {r rest : List Char} (nonempty : r ≠ [])
    (each : ∀ c ∈ r, ok c = true) (later : read? ps rest = some taken)
    (longest : ∀ longer behind, r ++ rest = longer ++ behind → (∀ c ∈ longer, ok c = true) →
      ∀ others, Reads ps behind others → longer.length ≤ r.length) :
    read? (.run ok :: ps) (r ++ rest) = some (r :: taken) := by
  have inRuns : (r, rest) ∈ runs ok (r ++ rest) := mem_runs_iff.mpr ⟨rfl, nonempty, each⟩
  obtain ⟨before, behind, cuts⟩ := List.append_of_mem inRuns
  have descending : (runs ok (r ++ rest)).Pairwise fun a b => b.1.length < a.1.length :=
    runs_descending
  rw [cuts, List.pairwise_append] at descending
  rw [read?, List.findSome?_eq_some_iff]
  refine ⟨before, (r, rest), behind, cuts, by simp [later], ?_⟩
  rintro ⟨longer, left⟩ earlier
  have lower : r.length < longer.length := descending.2.2 _ earlier _ List.mem_cons_self
  have inLonger : (longer, left) ∈ runs ok (r ++ rest) := by simp [cuts, earlier]
  obtain ⟨parts, _, eachLonger⟩ := mem_runs_iff.mp inLonger
  have unread : read? ps left = none := by
    rw [read?_eq_none_iff]
    intro others reads
    have upper := longest longer left parts eachLonger others reads
    omega
  simp [unread]

/-- The first place where a pattern can be read is found. -/
theorem search?_eq_some_iff :
    search? ps s = some taken ↔ ∃ front rest, s = front ++ rest ∧ read? ps rest = some taken ∧
      ∀ other later, s = other ++ later → (read? ps later).isSome = true →
        front.length ≤ other.length := by
  induction s with
  | nil =>
    rw [search?]
    constructor
    · intro found
      exact ⟨[], [], rfl, found, fun _ _ _ _ => Nat.zero_le _⟩
    · rintro ⟨front, rest, parts, found, _⟩
      obtain ⟨rfl, rfl⟩ := List.append_eq_nil_iff.mp parts.symm
      exact found
  | cons c s ih =>
    rw [search?]
    cases here : read? ps (c :: s) with
    | some others =>
      rw [Option.some_or]
      constructor
      · intro found
        exact ⟨[], c :: s, rfl, here.trans found, fun _ _ _ _ => Nat.zero_le _⟩
      · rintro ⟨front, rest, parts, found, first⟩
        have atStart := first [] (c :: s) rfl (by simp [here])
        obtain rfl := List.length_eq_zero_iff.mp (Nat.le_zero.mp atStart)
        obtain rfl : c :: s = rest := parts
        exact here.symm.trans found
    | none =>
      rw [Option.none_or, ih]
      constructor
      · rintro ⟨front, rest, parts, found, first⟩
        refine ⟨c :: front, rest, by simp [parts], found, ?_⟩
        intro other later split readable
        cases other with
        | nil =>
          obtain rfl : c :: s = later := split
          simp [here] at readable
        | cons d other =>
          have lower := first other later (List.cons.inj split).2 readable
          simpa using lower
      · rintro ⟨front, rest, parts, found, first⟩
        cases front with
        | nil =>
          obtain rfl : c :: s = rest := parts
          simp [here] at found
        | cons d front =>
          refine ⟨front, rest, (List.cons.inj parts).2, found, ?_⟩
          intro other later split readable
          have lower := first (c :: other) later (by simp [split]) readable
          simpa using lower

/-- A pattern that can be read somewhere is found. -/
theorem search?_isSome {front rest : List Char} (readable : (read? ps rest).isSome = true) :
    (search? ps (front ++ rest)).isSome = true := by
  induction front with
  | nil => cases rest <;> simp [search?, readable]
  | cons c front ih => simp [search?, ih]

end LibraryHeaders.Text
