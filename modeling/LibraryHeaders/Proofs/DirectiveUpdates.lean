import LibraryHeaders.Proofs.Precedence

/-!
# Directives over any updates

The lists of the classes are given one by one, as defaults or explicitly, in any order and any
number of times. Each update replaces what was given in the same way for the same class and touches
nothing else, so after any run of updates both lists of a class are the last ones given: `Records`
says this of a state, holds before the first update and is kept by every update. What counts for a
class is its last explicit list, wherever it stands in the run, and only without one its last
default.

Expansion goes through the lists that count, class by class. It ends at the first directory that
cannot be listed; otherwise every class keeps one list, which is explicit then.
-/

namespace LibraryHeaders.Directives

/-- A list is given for a class. -/
inductive Update where
  | seed (v : Visibility) (entries : List String)
  | set (v : Visibility) (entries : List String)
  deriving DecidableEq, Repr

def Update.visibility : Update → Visibility
  | .seed v _ => v
  | .set v _ => v

def Update.apply (d : Directives) : Update → Directives
  | .seed v entries => d.seed v entries
  | .set v entries => d.set v entries

/-- The directives after some updates. -/
def updated (us : List Update) : Directives := us.foldl Update.apply empty

/-- The list that the last update of one kind gives, if there is such an update. -/
inductive Latest (kind : List String → Update) (us : List Update) :
    Option (List String) → Prop where
  | never (absent : ∀ l, kind l ∉ us) : Latest kind us none
  | last {before after : List Update} {entries : List String}
      (split : us = before ++ kind entries :: after) (absent : ∀ l, kind l ∉ after) :
      Latest kind us (some entries)

/-- The list that counts for a class after some updates. -/
inductive Counts (us : List Update) (v : Visibility) : List String → Prop where
  | explicit {entries : List String} (last : Latest (.set v) us (some entries)) :
      Counts us v entries
  | default {entries : List String} (unset : Latest (.set v) us none)
      (last : Latest (.seed v) us (some entries)) : Counts us v entries
  | nothing (unset : Latest (.set v) us none) (unseeded : Latest (.seed v) us none) :
      Counts us v []

/-- The directives hold for every class the last lists that the updates give. -/
structure Records (us : List Update) (d : Directives) : Prop where
  explicit : ∀ v, Latest (.set v) us (d.explicit v)
  defaults : ∀ v, Latest (.seed v) us (d.defaults v)

section Latest

variable {kind : List String → Update} {us : List Update} {o o' : Option (List String)}

theorem Latest.concat_self (kind : List String → Update) (us : List Update)
    (entries : List String) : Latest kind (us ++ [kind entries]) (some entries) :=
  .last rfl fun _ => List.not_mem_nil

/-- An update of another kind changes nothing. -/
theorem Latest.concat_of_ne {u : Update} (latest : Latest kind us o) (other : ∀ l, kind l ≠ u) :
    Latest kind (us ++ [u]) o := by
  have absent_concat {ws : List Update} (absent : ∀ l, kind l ∉ ws) (l : List String) :
      kind l ∉ ws ++ [u] := by
    rw [List.mem_append, List.mem_singleton, not_or]
    exact ⟨absent l, other l⟩
  cases latest with
  | never absent => exact .never (absent_concat absent)
  | @last before after entries split absent =>
    have longer : us ++ [u] = before ++ kind entries :: (after ++ [u]) := by
      rw [split, List.append_assoc, List.cons_append]
    exact .last longer (absent_concat absent)

/-- Giving a list for one class records it there and nowhere else. -/
theorem Latest.put {kind : Visibility → List String → Update}
    (apart : ∀ {v w l l'}, kind v l = kind w l' → v = w) {f : Visibility → Option (List String)}
    (latest : ∀ v, Latest (kind v) us (f v)) (w : Visibility) (entries : List String)
    (v : Visibility) : Latest (kind v) (us ++ [kind w entries]) (put f w entries v) := by
  by_cases same : v = w
  · subst same
    have here : Directives.put f v entries v = some entries := if_pos rfl
    exact here ▸ .concat_self (kind v) us entries
  · have elsewhere : Directives.put f w entries v = f v := if_neg same
    exact elsewhere ▸ (latest v).concat_of_ne fun _ other => same (apart other)

/-- An update that does not stand behind the first one is the first one. -/
theorem eq_of_split {u w : Update} {after middle after' : List Update}
    (same : u :: after = middle ++ w :: after') (absent : w ∉ after) : u = w := by
  cases middle with
  | nil => exact (List.cons.inj same).1
  | cons _ middle =>
    rw [(List.cons.inj same).2] at absent
    exact absurd List.mem_append_cons_self absent

theorem Latest.unique (injective : Function.Injective kind) (latest : Latest kind us o)
    (latest' : Latest kind us o') : o = o' := by
  cases latest with
  | never absent =>
    cases latest' with
    | never => rfl
    | last split => exact absurd (split ▸ List.mem_append_cons_self) (absent _)
  | last split absent =>
    cases latest' with
    | never absent' => exact absurd (split ▸ List.mem_append_cons_self) (absent' _)
    | last split' absent' =>
      rcases List.append_eq_append_iff.mp (split.symm.trans split') with
        ⟨middle, -, same⟩ | ⟨middle, -, same⟩
      · exact congrArg some (injective (eq_of_split same (absent _)))
      · exact congrArg some (injective (eq_of_split same (absent' _))).symm

theorem Latest.isSome_iff (latest : Latest kind us o) : o.isSome = true ↔ ∃ l, kind l ∈ us := by
  cases latest with
  | never absent => exact iff_of_false nofun fun ⟨l, mem⟩ => absent l mem
  | last split => exact iff_of_true rfl ⟨_, split ▸ List.mem_append_cons_self⟩

end Latest

namespace Records

variable {us : List Update} {d : Directives} {v : Visibility}

theorem empty : Records [] empty :=
  ⟨fun _ => .never fun _ => List.not_mem_nil, fun _ => .never fun _ => List.not_mem_nil⟩

/-- An update is recorded among those of its kind, and the others stay as they are. -/
theorem apply (records : Records us d) (u : Update) : Records (us ++ [u]) (u.apply d) := by
  cases u with
  | seed w entries =>
    refine ⟨fun v => (records.explicit v).concat_of_ne nofun, fun v => ?_⟩
    exact .put (fun same => (Update.seed.inj same).1) records.defaults w entries v
  | set w entries =>
    refine ⟨fun v => ?_, fun v => (records.defaults v).concat_of_ne nofun⟩
    exact .put (fun same => (Update.set.inj same).1) records.explicit w entries v

theorem updated (us : List Update) : Records us (updated us) := by
  induction us using List.reverseRecOn with
  | nil => exact .empty
  | append_singleton us u ih =>
    rw [Directives.updated, List.foldl_concat]
    exact ih.apply u

theorem effective_eq_iff (records : Records us d) {entries : List String} :
    d.effective v = entries ↔ Counts us v entries := by
  have explicit := records.explicit v
  have defaults := records.defaults v
  have setInjective : Function.Injective (Update.set v) :=
    fun _ _ same => (Update.set.inj same).2
  have seedInjective : Function.Injective (Update.seed v) :=
    fun _ _ same => (Update.seed.inj same).2
  rw [effective]
  constructor
  · rintro rfl
    generalize d.explicit v = given at explicit
    generalize d.defaults v = seeded at defaults
    cases given with
    | some entries => exact .explicit explicit
    | none =>
      cases seeded with
      | some entries => exact .default explicit defaults
      | none => exact .nothing explicit defaults
  · intro counts
    cases counts with
    | explicit last =>
      rw [explicit.unique setInjective last]
      rfl
    | default unset last =>
      rw [explicit.unique setInjective unset, defaults.unique seedInjective last]
      rfl
    | nothing unset unseeded =>
      rw [explicit.unique setInjective unset, defaults.unique seedInjective unseeded]
      rfl

theorem mem_classes_iff (records : Records us d) :
    v ∈ d.classes ↔ ∃ u ∈ us, u.visibility = v := by
  simp only [classes, List.mem_filter, Visibility.mem_all, true_and, Bool.or_eq_true,
    (records.explicit v).isSome_iff, (records.defaults v).isSome_iff]
  constructor
  · rintro (⟨l, mem⟩ | ⟨l, mem⟩)
    · exact ⟨_, mem, rfl⟩
    · exact ⟨_, mem, rfl⟩
  · rintro ⟨⟨w, l⟩ | ⟨w, l⟩, mem, rfl⟩
    · exact Or.inr ⟨l, mem⟩
    · exact Or.inl ⟨l, mem⟩

end Records

theorem classes_ascending (d : Directives) : d.classes.Pairwise (· < ·) := by
  have all : Visibility.all.Pairwise (· < ·) := by decide
  exact all.filter _

/-! ## Expansion -/

/-- The entry is a directory that cannot be listed. -/
def Unlistable (fs : FileSystem) (entry : String) (fault : FileFault) : Prop :=
  fs.isDir (Path.ofString entry) = true ∧ fs.headersBelow (Path.ofString entry) = .error fault

/-- How the expansion of directives ends. -/
inductive Expansion (fs : FileSystem) (d : Directives) : Except Problem Directives → Prop where
  /-- The same classes have a list, each of them given explicitly, and in every list the directories
  are replaced by the header files below them. -/
  | complete {expanded : Directives}
      (listable : ∀ v, ∀ entry ∈ d.effective v, ∀ fault, ¬Unlistable fs entry fault)
      (classes : expanded.classes = d.classes)
      (explicit : ∀ v ∈ d.classes, expanded.isExplicit v = true)
      (undefaulted : ∀ v, expanded.defaults v = none)
      (effective : ∀ v, expanded.effective v = (d.effective v).flatMap (standsFor fs)) :
      Expansion fs d (.ok expanded)
  /-- The first directory that cannot be listed is reported. -/
  | stopped {before after : List Directive} {x : Directive} {fault : FileFault}
      (split : d.list = before ++ x :: after)
      (listable : ∀ b ∈ before, ∀ fault, ¬Unlistable fs b.pattern fault)
      (here : Unlistable fs x.pattern fault) : Expansion fs d (.error (.cannotOpen x.pattern fault))

/-- Two file systems have the same directories among the entries that count, and list the same files
for them. -/
def Agree (d : Directives) (fs fs' : FileSystem) : Prop :=
  ∀ v, ∀ entry ∈ d.effective v,
    fs.isDir (Path.ofString entry) = fs'.isDir (Path.ofString entry) ∧
      (fs.isDir (Path.ofString entry) = true →
        fs.headersBelow (Path.ofString entry) = fs'.headersBelow (Path.ofString entry))

variable {fs fs' : FileSystem} {d : Directives}

theorem unreadable?_eq_some_iff {x : Directive} {problem : Problem} :
    unreadable? fs x = some problem ↔
      ∃ fault, Unlistable fs x.pattern fault ∧ problem = .cannotOpen x.pattern fault := by
  rw [unreadable?]
  simp only [Unlistable]
  split
  · rename_i isDir
    cases listed : fs.headersBelow (Path.ofString x.pattern) <;> simp [isDir, eq_comm]
  · rename_i noDir
    simp [noDir]

theorem unreadable?_eq_none_iff {x : Directive} :
    unreadable? fs x = none ↔ ∀ fault, ¬Unlistable fs x.pattern fault := by
  constructor
  · intro readable fault here
    have found := unreadable?_eq_some_iff.mpr ⟨fault, here, rfl⟩
    rw [readable] at found
    cases found
  · intro listable
    cases found : unreadable? fs x with
    | none => rfl
    | some problem =>
      obtain ⟨fault, here, -⟩ := unreadable?_eq_some_iff.mp found
      exact absurd here (listable fault)

theorem mem_list_iff {x : Directive} : x ∈ d.list ↔ x.pattern ∈ d.effective x.visibility := by
  obtain ⟨pattern, v⟩ := x
  rw [list_eq]
  simp [Visibility.mem_all]

theorem foldl_set (f : Visibility → List String) (vs : List Visibility) (d : Directives) :
    vs.foldl (fun d v => d.set v (f v)) d =
      ⟨d.defaults, fun v => if v ∈ vs then some (f v) else d.explicit v⟩ := by
  induction vs generalizing d with
  | nil => simp
  | cons w vs ih =>
    rw [List.foldl_cons, ih, set]
    congr 1
    funext v
    by_cases same : v = w
    · simp [same, put]
    · simp [same, put]

/-- An explicit list for each class that has a list, and no defaults. -/
def explicitly (d : Directives) (f : Visibility → List String) : Directives :=
  ⟨fun _ => none, fun v => if v ∈ d.classes then some (f v) else none⟩

theorem isExplicit_explicitly {f : Visibility → List String} {v : Visibility} :
    (d.explicitly f).isExplicit v = true ↔ v ∈ d.classes := by
  rw [isExplicit, explicitly]
  by_cases listed : v ∈ d.classes <;> simp [listed]

theorem classes_explicitly (d : Directives) (f : Visibility → List String) :
    (d.explicitly f).classes = d.classes := by
  have kept (v : Visibility) : ((d.explicitly f).given v).isSome = (d.given v).isSome := by
    have listed : v ∈ d.classes ↔ (d.given v).isSome = true := by
      rw [classes_eq, List.mem_filter, and_iff_right (Visibility.mem_all v)]
    rw [Bool.eq_iff_iff, ← listed, ← isExplicit_explicitly (f := f), given, isExplicit]
    exact Option.or_none ▸ Iff.rfl
  rw [classes_eq, classes_eq]
  exact List.filter_congr fun v _ => kept v

theorem expand_of_sound (sound : Sound (unreadable? fs) d.list) :
    d.expand fs = .ok (d.explicitly fun v => (d.effective v).flatMap (standsFor fs)) := by
  rw [expand_eq, sound.findSome?_eq, foldl_set]
  rfl

/-- An expansion has the ending that applies. -/
theorem expansion_expand (fs : FileSystem) (d : Directives) : Expansion fs d (d.expand fs) := by
  rcases sound_or_firstProblem (unreadable? fs) d.list with sound | ⟨before, x, problem, first⟩
  · have expands := expand_of_sound sound
    have effective := expand_ok expands
    rw [expands]
    refine .complete ?_ (classes_explicitly d _) (fun v => isExplicit_explicitly.mpr)
      (fun _ => rfl) effective
    intro v entry mem
    exact unreadable?_eq_none_iff.mp (sound ⟨entry, v⟩ (mem_list_iff.mpr mem))
  · obtain ⟨fault, here, rfl⟩ := unreadable?_eq_some_iff.mp first.here
    obtain ⟨after, split⟩ := first.split
    rw [expand_eq, first.findSome?_eq]
    exact .stopped split (fun b mem => unreadable?_eq_none_iff.mp (first.sound b mem)) here

/-- An expansion asks of a file system only what the entries that count are. -/
theorem expand_of_agree (agree : Agree d fs fs') : d.expand fs = d.expand fs' := by
  have problems : d.list.findSome? (unreadable? fs) = d.list.findSome? (unreadable? fs') := by
    rw [← List.head?_filterMap, ← List.head?_filterMap]
    refine congrArg List.head? (List.filterMap_congr fun x mem => ?_)
    obtain ⟨isDir, listed⟩ := agree x.visibility x.pattern (mem_list_iff.mp mem)
    rw [unreadable?, unreadable?, ← isDir]
    exact ite_congr rfl (fun dir => by rw [listed dir]) fun _ => rfl
  have entries (v : Visibility) :
      (d.effective v).flatMap (standsFor fs) = (d.effective v).flatMap (standsFor fs') := by
    refine List.flatMap_congr fun entry mem => ?_
    obtain ⟨isDir, listed⟩ := agree v entry mem
    rw [standsFor, standsFor, ← isDir]
    exact ite_congr rfl (fun dir => by rw [listed dir]) fun _ => rfl
  simp only [expand_eq, problems, entries]

/-- After any updates a class has the list that was given for it last, explicitly or else as a
default, and the classes that any update speaks about have a list, each once and in their order. The
expansion of these lists ends at the first directory that cannot be listed, and succeeds where there
is none, with every list explicit. It does not depend on entries that do not count. -/
theorem updated_counts_and_expands (us : List Update) (fs : FileSystem) :
    (∀ v entries, (updated us).effective v = entries ↔ Counts us v entries) ∧
    ((updated us).classes.Pairwise (· < ·) ∧
      ∀ v, v ∈ (updated us).classes ↔ ∃ u ∈ us, u.visibility = v) ∧
    (updated us).list = (updated us).classes.flatMap
      (fun v => ((updated us).effective v).map fun entry => ⟨entry, v⟩) ∧
    ((∃ problem, (updated us).expand fs = .error problem) ↔
      ∃ v, ∃ entry ∈ (updated us).effective v, ∃ fault, Unlistable fs entry fault) ∧
    Expansion fs (updated us) ((updated us).expand fs) ∧
    ∀ fs', Agree (updated us) fs fs' → (updated us).expand fs = (updated us).expand fs' := by
  have records := Records.updated us
  have expansion := expansion_expand fs (updated us)
  refine ⟨fun v entries => records.effective_eq_iff, ⟨classes_ascending _, fun v =>
    records.mem_classes_iff⟩, rfl, ?_, expansion, fun fs' => expand_of_agree⟩
  generalize (updated us).expand fs = r at expansion
  cases expansion with
  | complete listable =>
    refine iff_of_false nofun ?_
    rintro ⟨v, entry, mem, fault, here⟩
    exact listable v entry mem fault here
  | @stopped before after x fault split listable here =>
    refine iff_of_true ⟨_, rfl⟩ ⟨x.visibility, x.pattern, mem_list_iff.mp ?_, fault, here⟩
    rw [split]
    exact List.mem_append_cons_self

end LibraryHeaders.Directives
