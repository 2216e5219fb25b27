import LibraryHeaders.Json.Printer
import Mathlib.Data.List.Basic
import Mathlib.Data.List.TakeWhile

/-!
# Written numbers

A JSON number is a whole part without a leading zero, which may have a sign before it and a fraction
and an exponent behind it. The scanner reads exactly the texts that are written so, as far as they
go on: what stands behind the number must not continue it.
-/

namespace LibraryHeaders.Json.Number

/-- Digits, and at least one. -/
def Digits (ds : List Char) : Prop := ds ≠ [] ∧ ∀ c ∈ ds, c.isDigit = true

/-- No digit stands at the beginning. -/
def NoDigit (s : List Char) : Prop := ∀ c ∈ s.head?, c.isDigit = false

/-- Nothing at the beginning continues a number. -/
def Stops (s : List Char) : Prop :=
  ∀ c ∈ s.head?, c.isDigit = false ∧ c ≠ '.' ∧ c ≠ 'e' ∧ c ≠ 'E'

inductive FractionSpelt : Option (List Char) → List Char → Prop where
  | none : FractionSpelt none []
  | some {ds : List Char} (digits : Digits ds) : FractionSpelt (some ds) ('.' :: ds)

inductive ExponentSpelt : Option (Bool × List Char) → List Char → Prop where
  | none : ExponentSpelt none []
  | bare {e : Char} {ds : List Char} (letter : e = 'e' ∨ e = 'E') (digits : Digits ds) :
      ExponentSpelt (some (true, ds)) (e :: ds)
  | plus {e : Char} {ds : List Char} (letter : e = 'e' ∨ e = 'E') (digits : Digits ds) :
      ExponentSpelt (some (true, ds)) (e :: '+' :: ds)
  | minus {e : Char} {ds : List Char} (letter : e = 'e' ∨ e = 'E') (digits : Digits ds) :
      ExponentSpelt (some (false, ds)) (e :: '-' :: ds)

/-- The text is the written number. -/
structure Literal.Spelt (l : Literal) (w : List Char) : Prop where
  whole : Digits l.whole
  noLeadingZero : ∀ d ds, l.whole ≠ '0' :: d :: ds
  parts : ∃ f e, FractionSpelt l.fraction f ∧ ExponentSpelt l.exponent e ∧
    w = (if l.negative then ['-'] else []) ++ (l.whole ++ (f ++ e))

variable {l : Literal} {w s rest ds f e : List Char} {negative : Bool} {whole : List Char}
  {fraction : Option (List Char)} {exponent : Option (Bool × List Char)}

theorem Stops.nil : Stops [] := nofun

theorem Stops.noDigit (stops : Stops s) : NoDigit s := fun c mem => (stops c mem).1

/-! ## Reading what is written -/

theorem digits_append (all : ∀ c ∈ ds, c.isDigit = true) (stop : NoDigit rest) :
    digits (ds ++ rest) = (ds, rest) := by
  have none : rest.takeWhile Char.isDigit = [] := by
    cases rest with
    | nil => rfl
    | cons c rest => rw [List.takeWhile_cons, stop c rfl]; rfl
  have here : rest.dropWhile Char.isDigit = rest := by
    cases rest with
    | nil => rfl
    | cons c rest => rw [List.dropWhile_cons, stop c rfl]; rfl
  rw [digits, List.takeWhile_append_of_pos all, List.dropWhile_append_of_pos all, none, here,
    List.append_nil]

/-- Behind the digits that have been read no digit stands. -/
theorem digits_spec (read : digits s = (ds, rest)) :
    s = ds ++ rest ∧ (∀ c ∈ ds, c.isDigit = true) ∧ NoDigit rest := by
  cases read
  refine ⟨List.takeWhile_append_dropWhile.symm, fun c => List.mem_takeWhile_imp, ?_⟩
  intro c mem
  have kept := List.head?_dropWhile_not Char.isDigit s
  rw [Option.mem_def.mp mem] at kept
  simpa using kept

theorem not_sign_of_isDigit {c : Char} (digit : c.isDigit = true) : c ≠ '+' ∧ c ≠ '-' := by
  constructor <;> (rintro rfl; cases digit)

theorem scanExponent_of_spelt (spelt : ExponentSpelt exponent e) (stops : Stops rest) :
    scanExponent negative whole fraction (e ++ rest) =
      .literal ⟨negative, whole, fraction, exponent⟩ rest := by
  have read {ds : List Char} (all : Digits ds) : digits (ds ++ rest) = (ds, rest) :=
    digits_append all.2 stops.noDigit
  cases spelt with
  | none =>
    cases rest with
    | nil => rfl
    | cons c rest =>
      obtain ⟨-, -, lower, upper⟩ := stops c rfl
      rw [List.nil_append, scanExponent.eq_def]
      exact if_neg (not_or.mpr ⟨lower, upper⟩)
  | @bare letter ds isLetter all =>
    obtain ⟨d, ds, rfl⟩ := List.exists_cons_of_ne_nil all.1
    obtain ⟨plus, minus⟩ := not_sign_of_isDigit (all.2 d List.mem_cons_self)
    rw [List.cons_append, scanExponent.eq_3 _ _ _ _ _ (by simp [plus]) (by simp [minus]),
      if_pos isLetter, read all]
  | @plus letter ds isLetter all =>
    obtain ⟨d, ds, rfl⟩ := List.exists_cons_of_ne_nil all.1
    rw [List.cons_append, List.cons_append, scanExponent.eq_1, if_pos isLetter, read all]
  | @minus letter ds isLetter all =>
    obtain ⟨d, ds, rfl⟩ := List.exists_cons_of_ne_nil all.1
    rw [List.cons_append, List.cons_append, scanExponent.eq_2, if_pos isLetter, read all]

/-- Where an exponent may begin no fraction does. -/
theorem not_point_of_spelt (spelt : ExponentSpelt exponent e) (stops : Stops rest) :
    ∀ s, e ++ rest ≠ '.' :: s := by
  intro s point
  cases spelt with
  | none =>
    rw [List.nil_append] at point
    exact (stops '.' (by rw [point]; rfl)).2.1 rfl
  | bare letter | plus letter | minus letter =>
    cases point
    rcases letter with letter | letter <;> cases letter

theorem noDigit_of_exponentSpelt (spelt : ExponentSpelt exponent e) (stops : Stops rest) :
    NoDigit (e ++ rest) := by
  cases spelt with
  | none => exact stops.noDigit
  | bare letter | plus letter | minus letter =>
    rintro c ⟨rfl⟩
    rcases letter with rfl | rfl <;> rfl

theorem scanFraction_of_spelt (fractionSpelt : FractionSpelt fraction f)
    (exponentSpelt : ExponentSpelt exponent e) (stops : Stops rest) :
    scanFraction negative whole (f ++ (e ++ rest)) =
      .literal ⟨negative, whole, fraction, exponent⟩ rest := by
  cases fractionSpelt with
  | none =>
    rw [List.nil_append, scanFraction.eq_2 _ _ _ (not_point_of_spelt exponentSpelt stops),
      scanExponent_of_spelt exponentSpelt stops]
  | @some ds all =>
    have read := digits_append all.2 (noDigit_of_exponentSpelt exponentSpelt stops)
    obtain ⟨d, ds, rfl⟩ := List.exists_cons_of_ne_nil all.1
    rw [List.cons_append, scanFraction.eq_1, read]
    exact scanExponent_of_spelt exponentSpelt stops

theorem noDigit_of_fractionSpelt (fractionSpelt : FractionSpelt fraction f)
    (exponentSpelt : ExponentSpelt exponent e) (stops : Stops rest) :
    NoDigit (f ++ (e ++ rest)) := by
  cases fractionSpelt with
  | none =>
    rw [List.nil_append]
    exact noDigit_of_exponentSpelt exponentSpelt stops
  | some =>
    rintro c ⟨rfl⟩
    rfl

theorem scanUnsigned_of_spelt (all : Digits whole) (lead : ∀ d ds, whole ≠ '0' :: d :: ds)
    (fractionSpelt : FractionSpelt fraction f) (exponentSpelt : ExponentSpelt exponent e)
    (stops : Stops rest) :
    scanUnsigned negative (whole ++ (f ++ (e ++ rest))) =
      .literal ⟨negative, whole, fraction, exponent⟩ rest := by
  rw [scanUnsigned,
    digits_append all.2 (noDigit_of_fractionSpelt fractionSpelt exponentSpelt stops)]
  split
  · rename_i none
    cases none
    exact absurd rfl all.1
  · rename_i zero
    cases zero
    exact absurd rfl (lead _ _)
  · rename_i parts
    cases parts
    exact scanFraction_of_spelt fractionSpelt exponentSpelt stops

/-- A number that is written is scanned up to its end, if what follows does not continue it. -/
theorem scan_of_spelt (spelt : l.Spelt w) (stops : Stops rest) :
    scan (w ++ rest) = .literal l rest := by
  obtain ⟨negative, whole, fraction, exponent⟩ := l
  obtain ⟨all, lead, f, e, fractionSpelt, exponentSpelt, rfl⟩ := spelt
  have unsigned : scanUnsigned negative (whole ++ (f ++ (e ++ rest))) =
      .literal ⟨negative, whole, fraction, exponent⟩ rest :=
    scanUnsigned_of_spelt all lead fractionSpelt exponentSpelt stops
  cases negative with
  | true =>
    rw [← unsigned]
    simp only [if_true, List.cons_append, List.nil_append, List.append_assoc, scan]
  | false =>
    rw [← unsigned]
    simp only [Bool.false_eq_true, if_false, List.nil_append, List.append_assoc]
    obtain ⟨d, ds, rfl⟩ := List.exists_cons_of_ne_nil all.1
    have digit := all.2 d List.mem_cons_self
    rw [scan.eq_2]
    intro s minus
    cases minus
    cases digit

/-! ## What is read is written -/

/-- Behind the letter of an exponent its digits have been read. -/
theorem digits_of_exponent {positive : Bool}
    (scanned : (match digits s with
      | ([], _) => missingDigits s
      | (ds, rest) => Scan.literal ⟨negative, whole, fraction, some (positive, ds)⟩ rest) =
        .literal l rest) :
    ∃ ds, l = ⟨negative, whole, fraction, some (positive, ds)⟩ ∧ Digits ds ∧ s = ds ++ rest ∧
      NoDigit rest := by
  split at scanned
  · cases scanned
  · rename_i ds _ nonempty read
    cases scanned
    obtain ⟨split, all, stop⟩ := digits_spec read
    refine ⟨ds, rfl, ⟨?_, all⟩, split, stop⟩
    rintro rfl
    exact nonempty rfl

theorem exponentSpelt_of_scan (start : NoDigit s)
    (scanned : scanExponent negative whole fraction s = .literal l rest) :
    ∃ e exponent, l = ⟨negative, whole, fraction, exponent⟩ ∧ ExponentSpelt exponent e ∧
      s = e ++ rest ∧ NoDigit rest := by
  cases s with
  | nil =>
    cases scanned
    exact ⟨[], _, rfl, .none, rfl, start⟩
  | cons c s =>
    by_cases letter : c = 'e' ∨ c = 'E'
    · by_cases plus : ∃ s', s = '+' :: s'
      · obtain ⟨s, rfl⟩ := plus
        rw [scanExponent.eq_1, if_pos letter] at scanned
        obtain ⟨ds, rfl, all, rfl, stop⟩ := digits_of_exponent scanned
        exact ⟨_, _, rfl, .plus letter all, rfl, stop⟩
      by_cases minus : ∃ s', s = '-' :: s'
      · obtain ⟨s, rfl⟩ := minus
        rw [scanExponent.eq_2, if_pos letter] at scanned
        obtain ⟨ds, rfl, all, rfl, stop⟩ := digits_of_exponent scanned
        exact ⟨_, _, rfl, .minus letter all, rfl, stop⟩
      · rw [scanExponent.eq_3 _ _ _ _ _ (fun s' h => plus ⟨s', h⟩) (fun s' h => minus ⟨s', h⟩),
          if_pos letter] at scanned
        obtain ⟨ds, rfl, all, rfl, stop⟩ := digits_of_exponent scanned
        exact ⟨_, _, rfl, .bare letter all, rfl, stop⟩
    · rw [scanExponent.eq_def] at scanned
      dsimp only at scanned
      rw [if_neg letter] at scanned
      cases scanned
      exact ⟨[], _, rfl, .none, rfl, start⟩

theorem fractionSpelt_of_scan (start : NoDigit s)
    (scanned : scanFraction negative whole s = .literal l rest) :
    ∃ f e fraction exponent, l = ⟨negative, whole, fraction, exponent⟩ ∧
      FractionSpelt fraction f ∧ ExponentSpelt exponent e ∧ s = f ++ (e ++ rest) ∧
      NoDigit rest := by
  by_cases point : ∃ s', s = '.' :: s'
  · obtain ⟨s, rfl⟩ := point
    rw [scanFraction.eq_1] at scanned
    split at scanned
    · cases scanned
    · rename_i ds _ nonempty read
      obtain ⟨rfl, all, stop⟩ := digits_spec read
      obtain ⟨e, exponent, rfl, spelt, rfl, stopRest⟩ := exponentSpelt_of_scan stop scanned
      have some : ds ≠ [] := by
        rintro rfl
        exact nonempty rfl
      exact ⟨_, e, _, exponent, rfl, .some ⟨some, all⟩, spelt, rfl, stopRest⟩
  · rw [scanFraction.eq_2 _ _ _ fun s' h => point ⟨s', h⟩] at scanned
    obtain ⟨e, exponent, rfl, spelt, rfl, stop⟩ := exponentSpelt_of_scan start scanned
    exact ⟨[], e, _, exponent, rfl, .none, spelt, rfl, stop⟩

theorem parts_of_scanUnsigned (scanned : scanUnsigned negative s = .literal l rest) :
    ∃ f e, l.negative = negative ∧ Digits l.whole ∧ (∀ d ds, l.whole ≠ '0' :: d :: ds) ∧
      FractionSpelt l.fraction f ∧ ExponentSpelt l.exponent e ∧ s = l.whole ++ (f ++ (e ++ rest)) ∧
      NoDigit rest := by
  rw [scanUnsigned] at scanned
  split at scanned
  · cases scanned
  · cases scanned
  · rename_i ds _ nonempty lead read
    obtain ⟨rfl, all, stop⟩ := digits_spec read
    obtain ⟨f, e, fraction, exponent, rfl, fractionSpelt, exponentSpelt, rfl, stopRest⟩ :=
      fractionSpelt_of_scan stop scanned
    refine ⟨f, e, rfl, ⟨?_, all⟩, ?_, fractionSpelt, exponentSpelt, rfl, stopRest⟩
    · rintro rfl
      exact nonempty rfl
    · rintro d ds rfl
      exact lead _ _ rfl

/-- What has been scanned is a written number, and no digit follows it. -/
theorem spelt_of_scan (scanned : scan s = .literal l rest) :
    ∃ w, s = w ++ rest ∧ l.Spelt w ∧ NoDigit rest := by
  by_cases minus : ∃ s', s = '-' :: s'
  · obtain ⟨s, rfl⟩ := minus
    rw [scan.eq_1] at scanned
    obtain ⟨f, e, negative, all, lead, fractionSpelt, exponentSpelt, rfl, stop⟩ :=
      parts_of_scanUnsigned scanned
    refine ⟨_, ?_, ⟨all, lead, f, e, fractionSpelt, exponentSpelt, rfl⟩, stop⟩
    simp only [negative, if_true, List.cons_append, List.nil_append, List.append_assoc]
  · rw [scan.eq_2 _ fun s' h => minus ⟨s', h⟩] at scanned
    obtain ⟨f, e, negative, all, lead, fractionSpelt, exponentSpelt, rfl, stop⟩ :=
      parts_of_scanUnsigned scanned
    refine ⟨_, ?_, ⟨all, lead, f, e, fractionSpelt, exponentSpelt, rfl⟩, stop⟩
    simp only [negative, Bool.false_eq_true, if_false, List.nil_append, List.append_assoc]

/-! ## Numbers that are printed -/

theorem digits_toDigits (n : Nat) : Digits (Nat.toDigits 10 n) :=
  ⟨Nat.toDigits_ne_nil, fun _ mem => Nat.isDigit_of_mem_toDigits (by decide) (by decide) mem⟩

theorem Digits.append (first : Digits ds) {more : List Char} (rest : ∀ c ∈ more, c.isDigit = true) :
    Digits (ds ++ more) :=
  ⟨List.append_ne_nil_of_left_ne_nil first.1 more, List.forall_mem_append.mpr ⟨first.2, rest⟩⟩

/-- A part of some digits that is not empty. -/
theorem Digits.of_subset (all : Digits ds) {part : List Char} (nonempty : part ≠ [])
    (subset : part ⊆ ds) : Digits part :=
  ⟨nonempty, fun c mem => all.2 c (subset mem)⟩

theorem isDigit_of_mem_zeros {n : Nat} : ∀ c ∈ List.replicate n '0', c.isDigit = true := by
  intro c mem
  rw [List.eq_of_mem_replicate mem]
  rfl

theorem head_toDigits_ne_zero {n : Nat} (positive : 0 < n) :
    ∀ c ∈ (Nat.toDigits 10 n).head?, c ≠ '0' := by
  induction n using Nat.strongRecOn with
  | ind n ih =>
    rw [Nat.toDigits_eq_if (by decide)]
    split
    · rename_i small
      rintro c ⟨rfl⟩
      revert positive
      clear ih
      revert n
      decide
    · rw [List.head?_append_of_ne_nil _ Nat.toDigits_ne_nil]
      exact ih (n / 10) (by omega) (by omega)

/-- Only zero itself begins with a zero. -/
theorem toDigits_noLeadingZero (n : Nat) (d : Char) (ds : List Char) :
    Nat.toDigits 10 n ≠ '0' :: d :: ds := by
  intro zero
  rcases Nat.eq_zero_or_pos n with rfl | positive
  · cases zero
  · exact head_toDigits_ne_zero positive '0' (by rw [zero]; rfl) rfl

/-- A decimal without an exponent is printed as a whole part and a fraction. -/
theorem positional_spelt (d : Decimal) :
    ∃ whole ds, Digits whole ∧ (∀ c cs, whole ≠ '0' :: c :: cs) ∧ Digits ds ∧
      d.positional = whole ++ '.' :: ds := by
  have zero : Digits ['0'] := ⟨List.cons_ne_nil _ _, List.forall_mem_singleton.mpr rfl⟩
  have all := digits_toDigits d.digits
  rw [Decimal.positional]
  by_cases large : 0 ≤ d.exponent
  · rw [if_pos large]
    by_cases none : d.digits = 0
    · rw [if_pos none]
      exact ⟨['0'], ['0'], zero, nofun, zero, rfl⟩
    · rw [if_neg none]
      refine ⟨_, ['0'], all.append isDigit_of_mem_zeros, ?_, zero, rfl⟩
      intro c cs lead
      refine head_toDigits_ne_zero (Nat.pos_of_ne_zero none) '0' ?_ rfl
      rw [Option.mem_def, ← List.head?_append_of_ne_nil _ Nat.toDigits_ne_nil, lead]
      rfl
  · rw [if_neg large]
    dsimp only
    split
    · rename_i places
      have lead := toDigits_noLeadingZero d.digits
      generalize Nat.toDigits 10 d.digits = ds at all places lead ⊢
      have inside : ds.length - (-d.exponent).toNat < ds.length := by omega
      refine ⟨_, _, all.of_subset ?_ (List.take_subset _ _), ?_,
        all.of_subset ?_ (List.drop_subset _ _), rfl⟩
      · rw [ne_eq, List.take_eq_nil_iff]
        rintro (none | none)
        · omega
        · exact all.1 none
      · intro c cs zero
        have front := List.take_append_drop (ds.length - (-d.exponent).toNat) ds
        rw [zero] at front
        exact lead _ _ front.symm
      · rw [ne_eq, List.drop_eq_nil_iff]
        omega
    · refine ⟨['0'], _, zero, nofun, ?_, rfl⟩
      exact ⟨List.append_ne_nil_of_right_ne_nil _ all.1,
        List.forall_mem_append.mpr ⟨isDigit_of_mem_zeros, all.2⟩⟩

/-- A decimal with an exponent has one digit before the point. -/
theorem scientific_spelt (d : Decimal) :
    ∃ c fraction f exponent e, c.isDigit = true ∧ FractionSpelt fraction f ∧
      ExponentSpelt exponent e ∧ d.scientific = [c] ++ (f ++ e) := by
  have all := digits_toDigits d.digits
  have exponent : ∃ exponent, ExponentSpelt exponent
      ('e' :: (if 0 ≤ d.leading then '+' else '-') :: Nat.toDigits 10 d.leading.natAbs) := by
    split
    · exact ⟨_, .plus (Or.inl rfl) (digits_toDigits _)⟩
    · exact ⟨_, .minus (Or.inl rfl) (digits_toDigits _)⟩
  obtain ⟨exponent, spelt⟩ := exponent
  rw [Decimal.scientific]
  generalize Nat.toDigits 10 d.digits = ds at all ⊢
  match ds, all with
  | [c], all => exact ⟨c, _, _, _, _, all.2 c List.mem_cons_self, .none, spelt, rfl⟩
  | c :: c' :: cs, all =>
    exact ⟨c, _, _, _, _, all.2 c List.mem_cons_self,
      .some (all.of_subset (List.cons_ne_nil _ _) (List.subset_cons_self _ _)), spelt, rfl⟩

theorem printer_number_integer (n : Int) :
    Printer.number (.integer n) =
      (if n < 0 then ['-'] else []) ++ Nat.toDigits 10 n.natAbs := by
  have shown : Printer.number (.integer n) = n.repr.toList := rfl
  rw [shown, Int.repr_eq_if]
  split
  · rename_i positive
    rw [if_neg (by omega), Nat.repr_eq_ofList_toDigits, String.toList_ofList, List.nil_append]
    congr 1
    omega
  · rename_i negative
    have same : (-n).toNat = n.natAbs := by omega
    rw [if_pos (by omega), Nat.repr_eq_ofList_toDigits, String.toList_append, same]
    exact congrArg (['-'] ++ ·) String.toList_ofList

/-- A number is printed as a written number. -/
theorem exists_spelt_number (n : Number) : ∃ l : Literal, l.Spelt (Printer.number n) := by
  cases n with
  | integer n =>
    refine ⟨⟨decide (n < 0), Nat.toDigits 10 n.natAbs, none, none⟩, digits_toDigits _,
      toDigits_noLeadingZero _, [], [], .none, .none, ?_⟩
    rw [printer_number_integer]
    by_cases negative : n < 0 <;> simp [negative]
  | real d =>
    have printed : Printer.number (.real d) = (if d.negative then ['-'] else []) ++
        if style.least ≤ d.leading ∧ d.leading ≤ style.greatest then d.positional
        else d.scientific := by
      rw [Printer.number, Decimal.render, String.toList_ofList]
      cases d.negative <;> rfl
    rw [printed]
    by_cases plain : style.least ≤ d.leading ∧ d.leading ≤ style.greatest
    · rw [if_pos plain]
      obtain ⟨whole, ds, all, lead, digits, body⟩ := positional_spelt d
      exact ⟨⟨d.negative, whole, some ds, none⟩, all, lead, _, [], .some digits, .none,
        by rw [body, List.append_nil]⟩
    · rw [if_neg plain]
      obtain ⟨c, fraction, f, exponent, e, digit, fractionSpelt, exponentSpelt, body⟩ :=
        scientific_spelt d
      exact ⟨⟨d.negative, [c], fraction, exponent⟩,
        ⟨List.cons_ne_nil _ _, List.forall_mem_singleton.mpr digit⟩, nofun, f, e, fractionSpelt,
        exponentSpelt, by rw [body]⟩

end LibraryHeaders.Json.Number
