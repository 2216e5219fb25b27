import LibraryHeaders.Proofs.Json.Tokens

/-!
# Written documents

A document is written by the tokens of its values, with commas between the items and members of a
container. The machine turns the tokens of a document into that document, whatever stands on its
stack; conversely, the tokens that it has taken so far are those of the containers on its stack, so
a draft that is not cut short is written by its text.
-/

namespace LibraryHeaders.Json.Draft

/-- A value, or what stands in a container that is not empty. -/
inductive Phrase where
  | value (d : Draft)
  | items (ds : List Draft)
  | members (ms : List Member)

/-- The tokens are the phrase. -/
inductive Phrase.Spelt : Phrase → List Token → Prop where
  | null : Spelt (.value .null) [.null]
  | bool (b : Bool) : Spelt (.value (.bool b)) [.bool b]
  | number (v : Except Fault Number) : Spelt (.value (.number v)) [.number v]
  | string (v : Except Fault String) : Spelt (.value (.string v)) [.string v]
  | emptyList : Spelt (.value (.list [] none)) [.openList, .closeList]
  | list {ds : List Draft} {ts : List Token} (inner : Spelt (.items ds) ts) :
      Spelt (.value (.list ds none)) (.openList :: (ts ++ [.closeList]))
  | emptyObject : Spelt (.value (.object [] none)) [.openObject, .closeObject]
  | object {ms : List Member} {ts : List Token} (inner : Spelt (.members ms) ts) :
      Spelt (.value (.object ms none)) (.openObject :: (ts ++ [.closeObject]))
  | item {d : Draft} {ts : List Token} (last : Spelt (.value d) ts) : Spelt (.items [d]) ts
  | items {d : Draft} {ds : List Draft} {ts ts' : List Token} (first : Spelt (.value d) ts)
      (others : Spelt (.items ds) ts') : Spelt (.items (d :: ds)) (ts ++ .comma :: ts')
  | member {d : Draft} {ts : List Token} (key : Except Fault String)
      (last : Spelt (.value d) ts) : Spelt (.members [(key, d)]) (.string key :: .colon :: ts)
  | members {d : Draft} {ms : List Member} {ts ts' : List Token} (key : Except Fault String)
      (first : Spelt (.value d) ts) (others : Spelt (.members ms) ts') :
      Spelt (.members ((key, d) :: ms)) (.string key :: .colon :: (ts ++ .comma :: ts'))

/-- The text is the document. -/
def Written (d : Draft) (s : List Char) : Prop :=
  ∃ ts, (Phrase.value d).Spelt ts ∧ Token.Lexes ts s

/-- The document is complete: some tokens are it. -/
def Whole (d : Draft) : Prop := ∃ ts, (Phrase.value d).Spelt ts

variable {p : Phrase} {d : Draft} {ds : List Draft} {ms : List Member} {mode : Mode}
  {stack : List Frame} {ts ts' : List Token} {t : Token} {s : List Char}

theorem Written.whole (written : d.Written s) : d.Whole := by
  obtain ⟨ts, spelt, -⟩ := written
  exact ⟨ts, spelt⟩

theorem Phrase.Spelt.isSound (spelt : p.Spelt ts) : ∀ t ∈ ts, t.IsSound := by
  induction spelt with
  | null | bool | number | string | emptyList | emptyObject => simp [Token.IsSound]
  | list _ ih | object _ ih => simpa [Token.IsSound, or_imp, forall_and] using ih
  | item _ ih => exact ih
  | items _ _ first others => simpa [Token.IsSound, or_imp, forall_and] using ⟨first, others⟩
  | member _ _ ih => simpa [Token.IsSound] using ih
  | members _ _ _ first others =>
    simpa [Token.IsSound, or_imp, forall_and] using ⟨first, others⟩

/-- What is written of a value does not begin like the end of a list. -/
theorem Phrase.Spelt.head (spelt : p.Spelt ts) :
    ∃ t ts', ts = t :: ts' ∧ t ≠ .closeList := by
  induction spelt with
  | item _ ih => exact ih
  | items _ _ ih =>
    obtain ⟨t, ts', rfl, other⟩ := ih
    exact ⟨t, _, rfl, other⟩
  | _ => exact ⟨_, _, rfl, nofun⟩

theorem whole_of_spelt_items (spelt : (Phrase.items ds).Spelt ts) : ∀ d ∈ ds, d.Whole := by
  generalize same : Phrase.items ds = p at spelt
  induction spelt generalizing ds with
  | item last =>
    cases same
    simpa using ⟨_, last⟩
  | items first _ _ ih =>
    cases same
    exact List.forall_mem_cons.mpr ⟨⟨_, first⟩, ih rfl⟩
  | _ => cases same

theorem whole_of_spelt_members (spelt : (Phrase.members ms).Spelt ts) :
    ∀ m ∈ ms, m.2.Whole := by
  generalize same : Phrase.members ms = p at spelt
  induction spelt generalizing ms with
  | member _ last =>
    cases same
    simpa using ⟨_, last⟩
  | members _ first _ _ ih =>
    cases same
    exact List.forall_mem_cons.mpr ⟨⟨_, first⟩, ih rfl⟩
  | _ => cases same

theorem Whole.list {cut : Option ListCut} (whole : (Draft.list ds cut).Whole) :
    cut = none ∧ ∀ d ∈ ds, d.Whole := by
  obtain ⟨ts, spelt⟩ := whole
  cases spelt with
  | emptyList => exact ⟨rfl, nofun⟩
  | list inner => exact ⟨rfl, whole_of_spelt_items inner⟩

theorem Whole.object {cut : Option ObjectCut} (whole : (Draft.object ms cut).Whole) :
    cut = none ∧ ∀ m ∈ ms, m.2.Whole := by
  obtain ⟨ts, spelt⟩ := whole
  cases spelt with
  | emptyObject => exact ⟨rfl, nofun⟩
  | object inner => exact ⟨rfl, whole_of_spelt_members inner⟩

theorem Whole.skipFault? (whole : d.Whole) : d.skipFault? = none := by
  obtain ⟨ts, spelt⟩ := whole
  cases spelt <;> rfl

/-! ## Reading what is written -/

/-- Goes on behind a step. -/
def resume : Step → List Token → Draft × Bool
  | .more mode stack, ts => run mode stack ts
  | .done d, ts => (d, !ts.isEmpty)
  | .stopped d, _ => (d, false)

theorem run_cons (mode : Mode) (stack : List Frame) (t : Token) (ts : List Token) :
    run mode stack (t :: ts) = resume (step mode stack t) ts := by
  rw [run]
  cases step mode stack t <;> rfl

/-- The machine waits for an item behind these. -/
def AwaitsItem (mode : Mode) (stack : List Frame) (before : List Draft) : Prop :=
  ∀ t, t ≠ .closeList → step mode stack t = step .value (.item before :: stack) t

/-- The machine waits for a key behind these members. -/
def AwaitsKey (mode : Mode) (stack : List Frame) (before : List Member) : Prop :=
  ∀ key, step mode stack (.string key) = .more (.colon before key) stack

theorem awaitsItem_listStart (stack : List Frame) : AwaitsItem .listStart stack [] := by
  intro t other
  cases t with
  | closeList => exact absurd rfl other
  | _ => rfl

theorem awaitsItem_listComma (before : List Draft) (stack : List Frame) :
    AwaitsItem (.listComma before) stack before := by
  intro t other
  cases t with
  | closeList => exact absurd rfl other
  | _ => rfl

theorem AwaitsItem.run {before : List Draft} (awaits : AwaitsItem mode stack before)
    (spelt : p.Spelt ts) (rest : List Token) :
    run mode stack (ts ++ rest) = run .value (.item before :: stack) (ts ++ rest) := by
  obtain ⟨t, ts', rfl, other⟩ := spelt.head
  rw [List.cons_append, run_cons, run_cons, awaits t other]

/-- How the machine takes a phrase. -/
def Phrase.Taken (ts : List Token) : Phrase → Prop
  | .value d => ∀ stack rest, run .value stack (ts ++ rest) = resume (complete d stack) rest
  | .items ds => ∀ before stack rest,
    run .value (.item before :: stack) (ts ++ .closeList :: rest) =
      resume (complete (.list (before.reverse ++ ds) none) stack) rest
  | .members ms => ∀ mode before stack rest, AwaitsKey mode stack before →
      run mode stack (ts ++ .closeObject :: rest) =
        resume (complete (.object (before.reverse ++ ms) none) stack) rest

theorem Phrase.Spelt.taken (spelt : p.Spelt ts) : p.Taken ts := by
  induction spelt with
  | null | bool | number | string => exact fun stack rest => run_cons _ stack _ rest
  | emptyList | emptyObject =>
    intro stack rest
    rw [List.cons_append, run_cons]
    exact run_cons _ stack _ rest
  | list inner ih =>
    intro stack rest
    rw [List.cons_append, run_cons, List.append_assoc]
    exact ((awaitsItem_listStart stack).run inner _).trans (ih [] stack rest)
  | object inner ih =>
    intro stack rest
    rw [List.cons_append, run_cons, List.append_assoc]
    exact ih .objectStart [] stack rest fun _ => rfl
  | item last ih =>
    intro before stack rest
    rw [ih, ← List.reverse_cons]
    exact run_cons _ stack _ rest
  | @items d ds ts ts' first others ih ih' =>
    intro before stack rest
    have awaits := (awaitsItem_listComma (d :: before) stack).run others (.closeList :: rest)
    have goesOn := awaits.trans (ih' (d :: before) stack rest)
    rw [List.reverse_cons, List.append_assoc, List.singleton_append] at goesOn
    rw [List.append_assoc, ih]
    exact (run_cons (.listNext (d :: before)) stack .comma _).trans goesOn
  | member key last ih =>
    intro mode before stack rest awaits
    have takesValue := ih (.member before key :: stack) (.closeObject :: rest)
    rw [List.cons_append, run_cons, awaits key, ← List.reverse_cons]
    refine ((run_cons (.colon before key) stack .colon _).trans takesValue).trans ?_
    exact run_cons _ stack _ rest
  | @members d ms ts ts' key first others ih ih' =>
    intro mode before stack rest awaits
    have takesValue := ih (.member before key :: stack) (.comma :: (ts' ++ .closeObject :: rest))
    have goesOn := ih' (.objectComma ((key, d) :: before)) _ stack rest fun _ => rfl
    rw [List.reverse_cons, List.append_assoc, List.singleton_append] at goesOn
    rw [List.cons_append, run_cons, awaits key, List.cons_append, List.append_assoc]
    refine ((run_cons (.colon before key) stack .colon _).trans takesValue).trans ?_
    exact (run_cons (.objectNext ((key, d) :: before)) stack .comma _).trans goesOn

/-- The draft of a written document is that document. -/
theorem Written.ofText (written : d.Written s) : ofText s = (d, false) := by
  obtain ⟨ts, spelt, lexes⟩ := written
  have tokens : Token.ofText s = ts := (Token.ofText_eq_iff spelt.isSound).mpr lexes
  have taken := spelt.taken [] []
  rw [List.append_nil] at taken
  rw [Draft.ofText, tokens]
  exact taken

/-! ## What is read is written -/

theorem Phrase.Spelt.snoc_item (items : (Phrase.items ds).Spelt ts)
    (last : (Phrase.value d).Spelt ts') :
    (Phrase.items (ds ++ [d])).Spelt (ts ++ .comma :: ts') := by
  generalize same : Phrase.items ds = p at items
  induction items generalizing ds with
  | item first =>
    cases same
    exact .items first (.item last)
  | items first _ _ ih =>
    cases same
    rw [List.append_assoc]
    exact .items first (ih rfl)
  | _ => cases same

theorem Phrase.Spelt.snoc_member (members : (Phrase.members ms).Spelt ts)
    (key : Except Fault String) (last : (Phrase.value d).Spelt ts') :
    (Phrase.members (ms ++ [(key, d)])).Spelt (ts ++ .comma :: .string key :: .colon :: ts') := by
  generalize same : Phrase.members ms = p at members
  induction members generalizing ms with
  | member firstKey first =>
    cases same
    exact .members firstKey first (.member key last)
  | members firstKey first _ _ ih =>
    cases same
    rw [List.cons_append, List.cons_append, List.cons_append, List.append_assoc]
    exact .members firstKey first (ih rfl)
  | _ => cases same

/-- The tokens lead from the beginning of a list to an item behind these. -/
inductive BeforeItem : List Draft → List Token → Prop where
  | first : BeforeItem [] [.openList]
  | later {before : List Draft} {ts : List Token} (inner : (Phrase.items before.reverse).Spelt ts) :
      BeforeItem before (.openList :: (ts ++ [.comma]))

/-- The tokens lead from the beginning of an object to a key behind these members. -/
inductive BeforeKey : List Member → List Token → Prop where
  | first : BeforeKey [] [.openObject]
  | later {before : List Member} {ts : List Token}
      (inner : (Phrase.members before.reverse).Spelt ts) :
      BeforeKey before (.openObject :: (ts ++ [.comma]))

/-- The tokens that the machine has taken of the containers on its stack. -/
inductive Stacked : List Frame → List Token → Prop where
  | nil : Stacked [] []
  | item {before : List Draft} {stack : List Frame} {ts ts' : List Token} (outer : Stacked stack ts)
      (leads : BeforeItem before ts') : Stacked (.item before :: stack) (ts ++ ts')
  | member {before : List Member} {stack : List Frame} {ts ts' : List Token}
      (key : Except Fault String) (outer : Stacked stack ts) (leads : BeforeKey before ts') :
      Stacked (.member before key :: stack) (ts ++ (ts' ++ [.string key, .colon]))

/-- The tokens that the machine has taken of what it reads. -/
inductive Mode.Taken : Mode → List Token → Prop where
  | value : Taken .value []
  | listStart : Taken .listStart [.openList]
  | listNext {before : List Draft} {ts : List Token}
      (inner : (Phrase.items before.reverse).Spelt ts) : Taken (.listNext before) (.openList :: ts)
  | listComma {before : List Draft} {ts : List Token}
      (inner : (Phrase.items before.reverse).Spelt ts) :
      Taken (.listComma before) (.openList :: (ts ++ [.comma]))
  | objectStart : Taken .objectStart [.openObject]
  | objectNext {before : List Member} {ts : List Token}
      (inner : (Phrase.members before.reverse).Spelt ts) :
      Taken (.objectNext before) (.openObject :: ts)
  | objectComma {before : List Member} {ts : List Token}
      (inner : (Phrase.members before.reverse).Spelt ts) :
      Taken (.objectComma before) (.openObject :: (ts ++ [.comma]))
  | colon {before : List Member} {ts : List Token} (key : Except Fault String)
      (leads : BeforeKey before ts) : Taken (.colon before key) (ts ++ [.string key])

/-- The tokens lead to the step: what goes on has taken them, and what is done is written by them.
What stops is cut short. -/
inductive Leads : Step → List Token → Prop where
  | more {mode : Mode} {stack : List Frame} {ts ts' : List Token} (outer : Stacked stack ts)
      (inner : mode.Taken ts') : Leads (.more mode stack) (ts ++ ts')
  | done {d : Draft} {ts : List Token} (spelt : (Phrase.value d).Spelt ts) : Leads (.done d) ts
  | stopped {d : Draft} {ts : List Token} (cut : d.skipFault? ≠ none) : Leads (.stopped d) ts

theorem cutShort_skipFault? (f : Fault) (cut : d.skipFault? ≠ none) (stack : List Frame) :
    (cutShort f d stack).skipFault? ≠ none := by
  induction stack generalizing d with
  | nil => exact cut
  | cons frame stack ih =>
    cases frame with
    | item before => exact ih (Option.some_ne_none _)
    | member before key => exact ih (Option.some_ne_none _)

theorem leads_stopped (f : Fault) (cut : d.skipFault? ≠ none) (stack : List Frame)
    (ts : List Token) : Leads (.stopped (cutShort f d stack)) ts :=
  .stopped (cutShort_skipFault? f cut stack)

theorem leads_complete (outer : Stacked stack ts) (spelt : (Phrase.value d).Spelt ts') :
    Leads (complete d stack) (ts ++ ts') := by
  cases outer with
  | nil => exact .done spelt
  | @item before stack us vs outer leads =>
    rw [List.append_assoc]
    cases leads with
    | first => exact .more outer (.listNext (.item spelt))
    | @later _ vs inner =>
      have snoc := inner.snoc_item spelt
      rw [← List.reverse_cons] at snoc
      rw [List.cons_append, List.append_assoc]
      exact .more outer (.listNext snoc)
  | @member before stack us vs key outer leads =>
    rw [List.append_assoc, List.append_assoc]
    cases leads with
    | first => exact .more outer (.objectNext (.member key spelt))
    | @later _ vs inner =>
      have snoc := inner.snoc_member key spelt
      rw [← List.reverse_cons] at snoc
      rw [List.cons_append, List.append_assoc]
      exact .more outer (.objectNext snoc)

theorem leads_stepValue (outer : Stacked stack ts) (t : Token) :
    Leads (stepValue stack t) (ts ++ [t]) := by
  cases t with
  | null => exact leads_complete outer .null
  | bool b => exact leads_complete outer (.bool b)
  | number v => exact leads_complete outer (.number v)
  | string v => exact leads_complete outer (.string v)
  | openList => exact .more outer .listStart
  | openObject => exact .more outer .objectStart
  | _ => exact leads_stopped _ (by nofun) _ _

theorem leads_step (outer : Stacked stack ts) (inner : mode.Taken ts') (t : Token) :
    Leads (step mode stack t) (ts ++ ts' ++ [t]) := by
  rw [List.append_assoc]
  cases inner with
  | value => exact leads_stepValue outer t
  | listStart =>
    have asValue := leads_stepValue (.item outer .first) t
    rw [List.append_assoc] at asValue
    cases t with
    | closeList => exact leads_complete outer .emptyList
    | _ => exact asValue
  | listNext inner =>
    cases t with
    | closeList => exact leads_complete outer (.list inner)
    | comma => exact .more outer (.listComma inner)
    | _ => exact leads_stopped _ (by nofun) _ _
  | listComma inner =>
    have asValue := leads_stepValue (.item outer (.later inner)) t
    rw [List.append_assoc] at asValue
    cases t with
    | closeList => exact leads_stopped _ (by nofun) _ _
    | _ => exact asValue
  | objectStart =>
    cases t with
    | closeObject => exact leads_complete outer .emptyObject
    | string key => exact .more outer (.colon key .first)
    | _ => exact leads_stopped _ (by nofun) _ _
  | objectNext inner =>
    cases t with
    | closeObject => exact leads_complete outer (.object inner)
    | comma => exact .more outer (.objectComma inner)
    | _ => exact leads_stopped _ (by nofun) _ _
  | objectComma inner =>
    cases t with
    | string key => exact .more outer (.colon key (.later inner))
    | _ => exact leads_stopped _ (by nofun) _ _
  | colon key leads =>
    cases t with
    | colon =>
      have more := Leads.more (.member key outer leads) .value
      rw [List.append_nil] at more
      rw [List.append_assoc]
      exact more
    | _ => exact leads_stopped _ (by nofun) _ _

theorem endOfText_skipFault? (mode : Mode) (stack : List Frame) :
    (endOfText mode stack).skipFault? ≠ none := by
  cases mode <;> exact cutShort_skipFault? _ (by nofun) _

/-- What the machine makes of all its tokens is written by them, if it is not cut short. -/
theorem spelt_of_run (outer : Stacked stack ts) (inner : mode.Taken ts') {rest : List Token}
    (ran : run mode stack rest = (d, false)) (sound : d.skipFault? = none) :
    (Phrase.value d).Spelt (ts ++ ts' ++ rest) := by
  induction rest generalizing mode stack ts ts' with
  | nil =>
    cases ran
    exact absurd sound (endOfText_skipFault? mode stack)
  | cons t rest ih =>
    rw [run_cons] at ran
    rw [← List.singleton_append, ← List.append_assoc]
    have leads := leads_step outer inner t
    revert ran leads
    generalize step mode stack t = next
    generalize ts ++ ts' ++ [t] = all
    intro ran leads
    cases leads with
    | more outer inner => exact ih outer inner ran
    | done spelt =>
      cases rest with
      | nil =>
        cases ran
        rw [List.append_nil]
        exact spelt
      | cons => cases ran
    | stopped cut =>
      cases ran
      exact absurd sound cut

/-- A draft that is not cut short is that of a text which is the document, and of no other. -/
theorem ofText_eq_iff (sound : d.skipFault? = none) : ofText s = (d, false) ↔ d.Written s := by
  constructor
  · intro ran
    have spelt := spelt_of_run .nil .value ran sound
    exact ⟨_, spelt, (Token.ofText_eq_iff spelt.isSound).mp rfl⟩
  · exact Written.ofText

end LibraryHeaders.Json.Draft
