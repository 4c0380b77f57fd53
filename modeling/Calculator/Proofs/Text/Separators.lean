import Calculator.Proofs.Decimal.Scanning
import Calculator.Text.Grouping
import Mathlib.Data.List.DropRight

/-!
# The places of the separators

`insertSeparators` goes through a text once.  At a digit it looks at the digits to come, and of what
is behind it a flag is left, which says whether the run of digits belongs to a fraction.

Here the places are described without going anywhere.  A place is a cut of the text in two, and the
run of digits around it is made of the digits at the end of the first part and of those at the start
of the second.  `SeparatorBelongs` says when a separator belongs at the place, and grouping puts one
there and nowhere else (`applyGrouping_eq`).

The digits to come need not be counted anew at each of them.  `groupRuns` takes a run as a whole and
counts its digits once, and then it is clear from the index of a digit whether a group starts with
it (`separatorAt`): the first group has what is left over by groups of three.  This is the same
(`applyGrouping_eq_groupRuns`).
-/

set_option autoImplicit false

namespace Calculator.Text

/-- A separator belongs between two parts of a text: the place is within a run of at least four
digits that does not directly follow a point, and a multiple of three of them come behind it. -/
def SeparatorBelongs (before after : List Char) : Prop :=
  let left := before.rtakeWhile Char.isDigit
  let right := after.takeWhile Char.isDigit
  left ≠ [] ∧ right ≠ [] ∧ 4 ≤ (left ++ right).length ∧
    (before.rdropWhile Char.isDigit).getLast? ≠ some '.' ∧ 3 ∣ right.length

instance (before after : List Char) : Decidable (SeparatorBelongs before after) := by
  unfold SeparatorBelongs
  infer_instance

/-- The character at this index, behind a separator if one belongs there. -/
def separatedAt (cs : List Char) (i : Nat) (c : Char) : List Char :=
  if SeparatorBelongs (cs.take i) (cs.drop i) then [separator, c] else [c]

/-- The text with a separator at every place where one belongs. -/
def separated (cs : List Char) : List Char :=
  cs.zipIdx.flatMap fun p ↦ separatedAt cs p.2 p.1

/-- The digits at the end of the text directly follow a point. -/
def endsInFraction (before : List Char) : Bool :=
  (before.rdropWhile Char.isDigit).getLast? == some '.'

section

variable {before after : List Char} {c : Char}

theorem endsInFraction_digit (hc : c.isDigit = true) :
    endsInFraction (before ++ [c]) = endsInFraction before := by
  rw [endsInFraction, List.rdropWhile_concat_pos _ _ _ hc, endsInFraction]

theorem endsInFraction_other (hc : c.isDigit = false) :
    endsInFraction (before ++ [c]) = (c == '.') := by
  rw [endsInFraction, List.rdropWhile_concat, if_neg (by rw [hc]; decide), List.getLast?_concat]
  rfl

theorem startsGroup_iff : startsGroup after = true ↔
    (after.takeWhile Char.isDigit).length ≠ 0 ∧
      (after.takeWhile Char.isDigit).length % 3 = 0 := by
  rw [startsGroup, Bool.and_eq_true, bne_iff_ne, beq_iff_eq]

/-- Behind a digit the digits to come decide, unless they belong to a fraction. -/
theorem separatorBelongs_digit (hc : c.isDigit = true) :
    SeparatorBelongs (before ++ [c]) after ↔
      (!endsInFraction before && startsGroup after) = true := by
  have hleft := List.rtakeWhile_concat_pos Char.isDigit before c hc
  have hfront := List.rdropWhile_concat_pos Char.isDigit before c hc
  have hfraction : (!endsInFraction before) = true ↔
      (before.rdropWhile Char.isDigit).getLast? ≠ some '.' := by
    rw [endsInFraction, Bool.not_eq_true', beq_eq_false_iff_ne]
  rw [Bool.and_eq_true, hfraction, startsGroup_iff, SeparatorBelongs, hleft, hfront]
  constructor
  · rintro ⟨-, hright, -, hpoint, hdvd⟩
    exact ⟨hpoint, fun h ↦ hright (List.length_eq_zero_iff.mp h), Nat.mod_eq_zero_of_dvd hdvd⟩
  · rintro ⟨hpoint, hright, hmod⟩
    refine ⟨by simp, fun h ↦ hright (List.length_eq_zero_iff.mpr h), ?_, hpoint,
      Nat.dvd_of_mod_eq_zero hmod⟩
    rw [List.length_append, List.length_append, List.length_singleton]
    omega

/-- Behind any other character no run of digits goes on. -/
theorem not_separatorBelongs_other (hc : c.isDigit = false) :
    ¬ SeparatorBelongs (before ++ [c]) after := by
  rintro ⟨hleft, -⟩
  exact hleft (List.rtakeWhile_concat_neg _ _ _ (by rw [hc]; decide))

/-- **One character of the scan.** -/
theorem insertSeparators_cons (before : List Char) (c : Char) (after : List Char) :
    insertSeparators (endsInFraction before) (c :: after)
      = c :: ((if SeparatorBelongs (before ++ [c]) after then [separator] else [])
          ++ insertSeparators (endsInFraction (before ++ [c])) after) := by
  rw [insertSeparators]
  cases hc : c.isDigit with
  | true =>
    rw [endsInFraction_digit hc, if_pos rfl]
    simp only [separatorBelongs_digit hc]
    split <;> rfl
  | false =>
    rw [endsInFraction_other hc, if_neg Bool.false_ne_true,
      if_neg (not_separatorBelongs_other hc)]
    rfl

/-- **The rest of the text**, by induction on it: the scan has put a separator in front of it if one
belongs there. -/
theorem flatMap_zipIdx (before after : List Char) :
    (after.zipIdx before.length).flatMap (fun p ↦ separatedAt (before ++ after) p.2 p.1)
      = (if SeparatorBelongs before after then [separator] else [])
          ++ insertSeparators (endsInFraction before) after := by
  induction after generalizing before with
  | nil =>
    rw [if_neg fun h ↦ h.2.1 rfl]
    rfl
  | cons c after ih =>
    have hrest := ih (before ++ [c])
    rw [List.append_assoc, List.length_append] at hrest
    rw [List.zipIdx_cons, List.flatMap_cons, insertSeparators_cons, ← hrest, separatedAt,
      List.take_left, List.drop_left]
    split <;> rfl

end

/-- **Grouping puts a separator exactly where one belongs** in the text without its old ones, and
changes nothing else. -/
theorem applyGrouping_eq (x : List Char) : applyGrouping x = separated (strip x) := by
  have hall := flatMap_zipIdx [] (strip x)
  rw [if_neg fun h ↦ h.1 rfl] at hall
  exact hall.symm

example : separated "1234567.8901+٣٣٣٣-1234".toList = "1,234,567.8901+٣٣٣٣-1,234".toList := by
  decide +kernel

/-! ## Run by run -/

/-- The separator in front of the digit with this index in a run of this size, if a group starts
there.  The first group has the digits that are left over by groups of three, and no separator. -/
def separatorAt (size i : Nat) : List Char :=
  if 0 < i ∧ (i + 3 - size % 3) % 3 = 0 then [separator] else []

/-- The digits of a run in groups. -/
def groupDigits (ds : List Char) : List Char :=
  ds.zipIdx.flatMap fun p ↦ separatorAt ds.length p.2 ++ [p.1]

/-- The text with its runs of digits in groups, one run after the other, except for the short ones
and the one that is next in line if it is behind a point. -/
def groupRuns (behindPoint : Bool) : List Char → List Char
  | [] => []
  | c :: cs =>
    if c.isDigit then
      let run := c :: cs.takeWhile Char.isDigit
      (if behindPoint || run.length < 4 then run else groupDigits run)
        ++ groupRuns false (cs.dropWhile Char.isDigit)
    else c :: groupRuns (c == '.') cs
  termination_by cs => cs.length
  decreasing_by
  · exact Nat.lt_succ_of_le (List.dropWhile_sublist _).length_le
  · exact Nat.lt_succ_self _

section

variable {ds rest : List Char}

/-- There is only one group in a short run. -/
theorem groupDigits_of_length_lt (h : ds.length < 4) : groupDigits ds = ds := by
  match ds, h with
  | [], _ | [_], _ | [_, _], _ | [_, _, _], _ => simp [groupDigits, separatorAt]

theorem startsGroup_append (hds : ∀ c ∈ ds, c.isDigit = true)
    (hrest : ∀ c ∈ rest.head?, c.isDigit = false) :
    startsGroup (ds ++ rest) = true ↔ ds.length ≠ 0 ∧ ds.length % 3 = 0 := by
  rw [startsGroup_iff, Numeral.takeWhile_digits hds hrest]

/-- Where no run goes on, it does not matter what it would belong to. -/
theorem insertSeparators_of_head (hrest : ∀ c ∈ rest.head?, c.isDigit = false) (f g : Bool) :
    insertSeparators f rest = insertSeparators g rest := by
  cases rest with
  | nil => rfl
  | cons c rest => simp [insertSeparators, hrest c rfl]

/-- The run of a fraction. -/
theorem insertSeparators_fraction (hds : ∀ c ∈ ds, c.isDigit = true) :
    insertSeparators true (ds ++ rest) = ds ++ insertSeparators true rest := by
  induction ds with
  | nil => rfl
  | cons d ds ih =>
    obtain ⟨hd, hds⟩ := List.forall_mem_cons.mp hds
    simp [insertSeparators, hd, ih hds]

/-- Behind a digit of an integer there is a separator if a group starts with the next one. -/
theorem insertSeparators_digit {size i : Nat} {d : Char} (hd : d.isDigit = true)
    (hds : ∀ c ∈ ds, c.isDigit = true) (hne : ds ≠ [])
    (hrest : ∀ c ∈ rest.head?, c.isDigit = false) (hsize : i + 1 + ds.length = size) :
    insertSeparators false (d :: (ds ++ rest))
      = d :: (separatorAt size (i + 1) ++ insertSeparators false (ds ++ rest)) := by
  have hlength : ds.length ≠ 0 := fun h ↦ hne (List.length_eq_zero_iff.mp h)
  have hgroup : startsGroup (ds ++ rest) = true ↔
      0 < i + 1 ∧ (i + 1 + 3 - size % 3) % 3 = 0 := by
    rw [startsGroup_append hds hrest]
    omega
  rw [insertSeparators, if_pos hd, separatorAt]
  simp only [Bool.not_false, Bool.true_and, hgroup]
  split <;> rfl

/-- The run of an integer from the digit with index `i` on, by induction on the digits behind it. -/
theorem insertSeparators_integer {size i : Nat} {d : Char} (hd : d.isDigit = true)
    (hds : ∀ c ∈ ds, c.isDigit = true) (hrest : ∀ c ∈ rest.head?, c.isDigit = false)
    (hsize : i + 1 + ds.length = size) :
    separatorAt size i ++ insertSeparators false (d :: (ds ++ rest))
      = ((d :: ds).zipIdx i).flatMap (fun p ↦ separatorAt size p.2 ++ [p.1])
          ++ insertSeparators false rest := by
  induction ds generalizing i d with
  | nil =>
    have hlast : startsGroup rest = false := by
      rw [Bool.eq_false_iff]
      exact fun h ↦ ((startsGroup_append (List.forall_mem_nil _) hrest).mp h).1 rfl
    simp [insertSeparators, hd, hlast]
  | cons e es ih =>
    obtain ⟨he, hes⟩ := List.forall_mem_cons.mp hds
    have hnext := ih he hes (i := i + 1) (by rw [← hsize, List.length_cons]; omega)
    rw [insertSeparators_digit hd hds (List.cons_ne_nil e es) hrest hsize, List.cons_append, hnext,
      List.zipIdx_cons, List.flatMap_cons]
    simp

/-- **One run of digits**, up to a text that does not go on with it. -/
theorem insertSeparators_run (behindPoint : Bool) (hne : ds ≠ [])
    (hds : ∀ c ∈ ds, c.isDigit = true) (hrest : ∀ c ∈ rest.head?, c.isDigit = false) :
    insertSeparators behindPoint (ds ++ rest)
      = (if behindPoint || ds.length < 4 then ds else groupDigits ds)
          ++ insertSeparators false rest := by
  cases behindPoint with
  | true =>
    rw [insertSeparators_fraction hds, insertSeparators_of_head hrest true false]
    rfl
  | false =>
    obtain ⟨d, tail, rfl⟩ := List.exists_cons_of_ne_nil hne
    obtain ⟨hd, htail⟩ := List.forall_mem_cons.mp hds
    have hall := insertSeparators_integer hd htail hrest (i := 0) (Nat.add_comm _ _)
    have hgroups : insertSeparators false (d :: tail ++ rest)
        = groupDigits (d :: tail) ++ insertSeparators false rest := hall
    rw [hgroups, Bool.false_or]
    split
    · rename_i hshort
      rw [groupDigits_of_length_lt (of_decide_eq_true hshort)]
    · rfl

end

/-- The scan groups the runs one after the other. -/
theorem insertSeparators_eq_groupRuns (behindPoint : Bool) (cs : List Char) :
    insertSeparators behindPoint cs = groupRuns behindPoint cs := by
  fun_induction groupRuns behindPoint cs with
  | case1 => rfl
  | case2 behindPoint c cs hc run ih =>
    have hsplit : c :: cs = run ++ cs.dropWhile Char.isDigit := by
      rw [List.cons_append, List.takeWhile_append_dropWhile]
    have hrun : ∀ d ∈ run, d.isDigit = true :=
      List.forall_mem_cons.mpr ⟨hc, Numeral.isDigit_of_mem_takeWhile⟩
    rw [hsplit, insertSeparators_run behindPoint (List.cons_ne_nil _ _) hrun
      Numeral.head_dropWhile_digits, ih]
  | case3 behindPoint c cs hc ih => rw [insertSeparators, if_neg hc, ih]

/-- **Grouping goes run by run.**  In the text without its old separators, a run of at least four
digits that does not directly follow a point is cut into groups, and all else is kept. -/
theorem applyGrouping_eq_groupRuns (x : List Char) : applyGrouping x = groupRuns false (strip x) :=
  insertSeparators_eq_groupRuns false (strip x)

end Calculator.Text
