import FluxBalance.Equation.Token
import Mathlib.Data.List.Basic
import Mathlib.Data.List.TakeWhile

/-!
# Numbers, words and operators at the front of a text

What is cut off the front of a text does not depend on what comes after the text, if that begins
with a blank or a closing parenthesis: no number, word or operator goes on with one of these. And
what is cut off holds no bracket, unless it is one.

Each function that cuts something off has one lemma of either kind. Those of the first kind end in
`_append`, those of the second begin with `leaves_`.

## Main definitions and results

* `Bordered`: a text before which every token ends;
* `Leaves`: what is cut off holds none of the characters in `marks`;
* `takeNumber?_append`, `takeOperator?_append`: the two longest pieces, as examples of the first
  kind.
-/

namespace FluxBalance.Equation.Token

/-! ### Characters that a token cannot hold -/

/-- The characters that the depth of parentheses depends on, and line breaks. -/
def marks : List Char := ['(', ')', '[', ']', '\x7b', '\x7d', '\n']

/-- The characters with which every token before them ends. -/
def borders : List Char := [')', ' ', '\t', '\x0c']

/-- Every token ends before the text. -/
def Bordered (xs : List Char) : Prop := ∀ x, xs.head? = some x → x ∈ borders

/-- The rest of a text after characters that are no `marks`. -/
def Leaves (cs rest : List Char) : Prop := ∃ used, cs = used ++ rest ∧ ∀ c ∈ used, c ∉ marks

variable {c : Char} {cs rest xs : List Char} {isDigit : Char → Bool}

theorem Leaves.refl (cs : List Char) : Leaves cs cs := ⟨[], rfl, List.forall_mem_nil _⟩

theorem Leaves.cons (hc : c ∉ marks) (h : Leaves cs rest) : Leaves (c :: cs) rest := by
  obtain ⟨used, rfl, hused⟩ := h
  exact ⟨c :: used, rfl, List.forall_mem_cons.mpr ⟨hc, hused⟩⟩

theorem Leaves.trans {mid : List Char} (h : Leaves cs mid) (h' : Leaves mid rest) :
    Leaves cs rest := by
  obtain ⟨used, rfl, hused⟩ := h
  obtain ⟨used', rfl, hused'⟩ := h'
  exact ⟨used ++ used', (List.append_assoc ..).symm, List.forall_mem_append.mpr ⟨hused, hused'⟩⟩

/-- A test that no mark passes. -/
theorem not_mem_marks {p : Char → Bool} (h : ∀ x ∈ marks, p x = false) (hc : p c = true) :
    c ∉ marks :=
  fun hmem => Bool.false_ne_true ((h c hmem).symm.trans hc)

/-- What no character of a list passes, evaluated over the list and not over all characters. -/
theorem forall_of_any {l : List Char} {p : Char → Bool} (h : l.any p = false) :
    ∀ x ∈ l, p x = false :=
  fun x hx => Bool.eq_false_iff.mpr (List.any_eq_false.mp h x hx)

theorem isDigit_marks : ∀ x ∈ marks, x.isDigit = false := forall_of_any (by decide)

theorem isDigit_borders : ∀ x ∈ borders, x.isDigit = false := forall_of_any (by decide)

theorem isWord_marks : ∀ x ∈ marks, Text.isWord x = false := forall_of_any (by decide +kernel)

theorem isWord_borders : ∀ x ∈ borders, Text.isWord x = false := forall_of_any (by decide +kernel)

/-! ### Digits -/

private theorem takeGroup_cons (isDigit : Char → Bool) (c : Char) (cs : List Char) :
    takeGroup isDigit (c :: cs) =
      if isDigit c then (c :: (takeGroup isDigit cs).1, (takeGroup isDigit cs).2)
      else if c = '_' && takeGroup.startsWithDigit isDigit cs then takeGroup isDigit cs
      else ([], c :: cs) := rfl

/-- What comes after a text does not decide whether it starts with a digit, if it is `Bordered`. -/
theorem startsWithDigit_append (hdigit : ∀ x ∈ borders, isDigit x = false) (hxs : Bordered xs)
    (cs : List Char) :
    takeGroup.startsWithDigit isDigit (cs ++ xs) = takeGroup.startsWithDigit isDigit cs := by
  cases cs with
  | cons c cs => rfl
  | nil =>
    cases xs with
    | nil => rfl
    | cons x xs => exact hdigit x (hxs x rfl)

/-- What comes after a `Bordered` text is not seen by `takeGroup`. -/
private theorem takeGroup_append (hdigit : ∀ x ∈ borders, isDigit x = false) (hxs : Bordered xs)
    (cs : List Char) : takeGroup isDigit (cs ++ xs) =
      ((takeGroup isDigit cs).1, (takeGroup isDigit cs).2 ++ xs) := by
  induction cs with
  | nil =>
    cases xs with
    | nil => rfl
    | cons x xs =>
      have hx := hxs x rfl
      rw [List.nil_append, takeGroup_cons, hdigit x hx, if_neg Bool.false_ne_true, if_neg]
      · rfl
      · intro h
        rw [Bool.and_eq_true, decide_eq_true_eq] at h
        rw [h.1] at hx
        exact absurd hx (by decide)
  | cons c cs ih =>
    rw [List.cons_append, takeGroup_cons, takeGroup_cons, ih, startsWithDigit_append hdigit hxs]
    split
    · rfl
    split <;> rfl

private theorem leaves_takeGroup (hdigit : ∀ x ∈ marks, isDigit x = false) (cs : List Char) :
    Leaves cs (takeGroup isDigit cs).2 := by
  induction cs with
  | nil => exact .refl _
  | cons c cs ih =>
    rw [takeGroup_cons]
    split
    · rename_i hc
      exact ih.cons (not_mem_marks hdigit hc)
    split
    · rename_i hunderscore
      have hc : c = '_' := of_decide_eq_true (Bool.and_eq_true_iff.mp hunderscore).1
      exact ih.cons (hc ▸ by decide)
    · exact .refl _

/-! ### Numbers -/

/-- Whether a minus stands at the front of a text, and what comes after the sign. -/
def takeSign : List Char → Bool × List Char
  | '-' :: r => (true, r)
  | '+' :: r => (false, r)
  | r => (false, r)

private theorem takeSign_append (hxs : Bordered xs) (cs : List Char) :
    takeSign (cs ++ xs) = ((takeSign cs).1, (takeSign cs).2 ++ xs) := by
  cases cs with
  | nil =>
    cases xs with
    | nil => rfl
    | cons x xs =>
      have hx := hxs x rfl
      rw [List.nil_append]
      unfold takeSign
      split
      · rename_i h
        cases h
        exact absurd hx (by decide)
      · rename_i h
        cases h
        exact absurd hx (by decide)
      · rfl
  | cons c cs =>
    rw [List.cons_append]
    unfold takeSign
    split
    · rename_i h
      cases h
      rfl
    · rename_i h
      cases h
      rfl
    · rename_i hminus hplus
      split
      · rename_i h
        cases h
        exact absurd rfl (hminus _)
      · rename_i h
        cases h
        exact absurd rfl (hplus _)
      · rfl

private theorem leaves_takeSign (cs : List Char) : Leaves cs (takeSign cs).2 := by
  unfold takeSign
  split
  · exact (Leaves.refl _).cons (by decide)
  · exact (Leaves.refl _).cons (by decide)
  · exact .refl _

private theorem takeExponent?_cons (c : Char) (cs : List Char) : takeExponent? (c :: cs) =
    if c = 'e' ∨ c = 'E' then
      if takeGroup.startsWithDigit Char.isDigit (takeSign cs).2 then
        some
          (if (takeSign cs).1 then -(groupValue 10 (takeGroup Char.isDigit (takeSign cs).2).1 : Int)
            else groupValue 10 (takeGroup Char.isDigit (takeSign cs).2).1,
          (takeGroup Char.isDigit (takeSign cs).2).2)
      else none
    else none := rfl

private theorem takeExponent?_append (hxs : Bordered xs) (cs : List Char) :
    takeExponent? (cs ++ xs) = (takeExponent? cs).map fun r => (r.1, r.2 ++ xs) := by
  cases cs with
  | nil =>
    cases xs with
    | nil => rfl
    | cons x xs =>
      have hx := hxs x rfl
      rw [List.nil_append, takeExponent?_cons, if_neg]
      · rfl
      · rintro (rfl | rfl)
        · exact absurd hx (by decide)
        · exact absurd hx (by decide)
  | cons c cs =>
    rw [List.cons_append, takeExponent?_cons, takeExponent?_cons, takeSign_append hxs,
      startsWithDigit_append isDigit_borders hxs, takeGroup_append isDigit_borders hxs]
    split
    · split <;> rfl
    · rfl

private theorem leaves_takeExponent? {r : Int × List Char} (h : takeExponent? cs = some r) :
    Leaves cs r.2 := by
  cases cs with
  | nil => cases h
  | cons c cs =>
    rw [takeExponent?_cons] at h
    split at h
    · rename_i hc
      split at h
      · cases h
        have hmark : c ∉ marks := by
          rcases hc with rfl | rfl <;> decide
        exact ((leaves_takeSign cs).trans (leaves_takeGroup isDigit_marks _)).cons hmark
      · cases h
    · cases h

/-- The digits after a point and the rest. -/
def takePlaces (cs : List Char) : List Char × List Char :=
  if takeGroup.startsWithDigit Char.isDigit cs then takeGroup Char.isDigit cs else ([], cs)

/-- After the point `takeFraction` reads places, and an exponent if there is one. -/
theorem takeFraction_eq (whole cs : List Char) : takeFraction whole cs =
    match takeExponent? (takePlaces cs).2 with
    | some (e, rest) =>
      (.decimal (groupValue 10 (whole ++ (takePlaces cs).1)) (e - (takePlaces cs).1.length), rest)
    | none =>
      (.decimal (groupValue 10 (whole ++ (takePlaces cs).1)) (-(takePlaces cs).1.length),
        (takePlaces cs).2) := rfl

private theorem takePlaces_append (hxs : Bordered xs) (cs : List Char) :
    takePlaces (cs ++ xs) = ((takePlaces cs).1, (takePlaces cs).2 ++ xs) := by
  unfold takePlaces
  rw [startsWithDigit_append isDigit_borders hxs, takeGroup_append isDigit_borders hxs]
  split <;> rfl

private theorem takeFraction_append (hxs : Bordered xs) (whole cs : List Char) :
    takeFraction whole (cs ++ xs) =
      ((takeFraction whole cs).1, (takeFraction whole cs).2 ++ xs) := by
  rw [takeFraction_eq, takeFraction_eq, takePlaces_append hxs, takeExponent?_append hxs]
  cases takeExponent? (takePlaces cs).2 <;> rfl

private theorem leaves_takeFraction (whole cs : List Char) :
    Leaves cs (takeFraction whole cs).2 := by
  have hplaces : Leaves cs (takePlaces cs).2 := by
    unfold takePlaces
    split
    · exact leaves_takeGroup isDigit_marks _
    · exact .refl _
  rw [takeFraction_eq]
  split
  · rename_i h
    exact hplaces.trans (leaves_takeExponent? h)
  · exact hplaces

/-- The base that a letter after a zero stands for. -/
def base? : Char → Option Nat
  | 'x' | 'X' => some 16
  | 'o' | 'O' => some 8
  | 'b' | 'B' => some 2
  | _ => none

private theorem takeBased?_cons (c : Char) (cs : List Char) : takeBased? (c :: cs) =
    match base? c with
    | none => none
    | some base =>
      match takeGroup (isDigitOf base) cs with
      | ([], _) => none
      | (ds, rest) => some (groupValue base ds, rest) := rfl

/-- The digits of a base are neither `marks` nor `borders`. -/
private theorem base?_eq_some {base : Nat} (h : base? c = some base) :
    c ∉ marks ∧ (∀ x ∈ marks, isDigitOf base x = false) ∧
      ∀ x ∈ borders, isDigitOf base x = false := by
  have hbase : c ∉ marks ∧ (base = 16 ∨ base = 8 ∨ base = 2) := by
    unfold base? at h
    split at h <;> first | cases h; decide | cases h
  rcases hbase with ⟨hc, rfl | rfl | rfl⟩
  · exact ⟨hc, forall_of_any (by decide), forall_of_any (by decide)⟩
  · exact ⟨hc, forall_of_any (by decide), forall_of_any (by decide)⟩
  · exact ⟨hc, forall_of_any (by decide), forall_of_any (by decide)⟩

private theorem takeBased?_append (hxs : Bordered xs) (cs : List Char) :
    takeBased? (cs ++ xs) = (takeBased? cs).map fun r => (r.1, r.2 ++ xs) := by
  cases cs with
  | nil =>
    cases xs with
    | nil => rfl
    | cons x xs =>
      have hx : (base? x).isSome = false :=
        forall_of_any (p := fun x => (base? x).isSome) (by decide) x (hxs x rfl)
      rw [List.nil_append, takeBased?_cons,
        Option.not_isSome_iff_eq_none.mp (Bool.eq_false_iff.mp hx)]
      rfl
  | cons c cs =>
    rw [List.cons_append, takeBased?_cons, takeBased?_cons]
    cases hbase : base? c with
    | none => rfl
    | some base =>
      dsimp only
      rw [takeGroup_append (base?_eq_some hbase).2.2 hxs]
      cases takeGroup (isDigitOf base) cs with
      | mk ds rest => cases ds <;> rfl

private theorem leaves_takeBased? {r : Nat × List Char} (h : takeBased? cs = some r) :
    Leaves cs r.2 := by
  cases cs with
  | nil => cases h
  | cons c cs =>
    rw [takeBased?_cons] at h
    cases hbase : base? c with
    | none =>
      rw [hbase] at h
      cases h
    | some base =>
      obtain ⟨hmark, hdigit, -⟩ := base?_eq_some hbase
      have hgroup := leaves_takeGroup hdigit cs
      rw [hbase] at h
      dsimp only at h
      split at h
      · cases h
      · rename_i hds
        cases h
        rw [hds] at hgroup
        exact hgroup.cons hmark

/-- The number without a point whose digits and rest are given. -/
def wholeNumber? (whole rest : List Char) : Option (Token × List Char) :=
  match takeExponent? rest with
  | some (e, rest) => some (.decimal (groupValue 10 whole) e, rest)
  | none =>
    match if whole = ['0'] then takeBased? rest else none with
    | some (n, rest) => some (.integer n, rest)
    | none =>
      if whole.head? = some '0' ∧ groupValue 10 whole ≠ 0 ∧
          ¬ (rest.head? = some 'j' ∨ rest.head? = some 'J') then none
      else some (.integer (groupValue 10 whole), rest)

private theorem wholeNumber?_append (hxs : Bordered xs) (whole rest : List Char) :
    wholeNumber? whole (rest ++ xs) =
      (wholeNumber? whole rest).map fun r => (r.1, r.2 ++ xs) := by
  have hletter : ∀ j ∉ borders, (rest ++ xs).head? = some j ↔ rest.head? = some j := by
    intro j hj
    cases rest with
    | nil => exact ⟨fun h => absurd (hxs j h) hj, nofun⟩
    | cons c rest => rfl
  have hbased : (if whole = ['0'] then takeBased? (rest ++ xs) else none) =
      (if whole = ['0'] then takeBased? rest else none).map fun r => (r.1, r.2 ++ xs) := by
    rw [takeBased?_append hxs]
    split <;> rfl
  unfold wholeNumber?
  simp only [takeExponent?_append hxs, hbased, hletter 'j' (by decide), hletter 'J' (by decide)]
  cases takeExponent? rest with
  | some r => rfl
  | none =>
    cases if whole = ['0'] then takeBased? rest else none with
    | some r => rfl
    | none =>
      dsimp only [Option.map_none]
      split <;> rfl

/-- Where digits begin, `wholeNumber?` tries an exponent, then a base, and refuses leading zeros. -/
private theorem wholeNumber?_eq (whole rest : List Char) : wholeNumber? whole rest =
    match takeExponent? rest with
    | some (e, rest) => some (.decimal (groupValue 10 whole) e, rest)
    | none =>
      match whole, takeBased? rest with
      | ['0'], some (n, rest) => some (.integer n, rest)
      | _, _ =>
        if whole.head? = some '0' ∧ groupValue 10 whole ≠ 0 ∧
            ¬ (rest.head? = some 'j' ∨ rest.head? = some 'J') then none
        else some (.integer (groupValue 10 whole), rest) := by
  unfold wholeNumber?
  cases takeExponent? rest with
  | some r => rfl
  | none =>
    by_cases hzero : whole = ['0']
    · rw [if_pos hzero, hzero]
      cases takeBased? rest <;> rfl
    · rw [if_neg hzero]
      symm
      dsimp only
      split
      · exact absurd rfl hzero
      · rfl

private theorem leaves_wholeNumber? {whole : List Char} {r : Token × List Char}
    (h : wholeNumber? whole cs = some r) : Leaves cs r.2 := by
  unfold wholeNumber? at h
  split at h
  · rename_i hexponent
    cases h
    exact leaves_takeExponent? hexponent
  split at h
  · rename_i hbased
    cases h
    split at hbased
    · exact leaves_takeBased? hbased
    · cases hbased
  split at h
  · cases h
  · cases h
    exact .refl _

/-- The number whose digits before a point, and the text after them, are given. -/
def numberAfter? (whole : List Char) : List Char → Option (Token × List Char)
  | '.' :: r => some (takeFraction whole r)
  | rest => wholeNumber? whole rest

private theorem numberAfter?_whole {whole : List Char} (h : cs.head? ≠ some '.') :
    numberAfter? whole cs = wholeNumber? whole cs := by
  unfold numberAfter?
  split
  · exact absurd rfl h
  · rfl

/-- A number that does not begin with a point is read by `takePlainNumber?` digit by digit. -/
theorem takePlainNumber?_eq (cs : List Char) : takePlainNumber? cs =
    if cs.head? = some '.' then numberAfter? [] cs
    else numberAfter? (takeGroup Char.isDigit cs).1 (takeGroup Char.isDigit cs).2 := by
  unfold takePlainNumber?
  split
  · rfl
  · rename_i hpoint
    rw [if_neg fun h => (List.head?_eq_some_iff.mp h).elim hpoint]
    obtain ⟨whole, rest⟩ := takeGroup Char.isDigit cs
    dsimp only
    split
    · rfl
    · rename_i hrest
      rw [numberAfter?_whole fun h => (List.head?_eq_some_iff.mp h).elim hrest]
      exact (wholeNumber?_eq whole rest).symm

private theorem numberAfter?_append (hxs : Bordered xs) (whole rest : List Char) :
    numberAfter? whole (rest ++ xs) =
      (numberAfter? whole rest).map fun r => (r.1, r.2 ++ xs) := by
  cases rest with
  | nil =>
    rw [List.nil_append, numberAfter?_whole fun h => absurd (hxs '.' h) (by decide)]
    exact wholeNumber?_append hxs whole []
  | cons c rest =>
    by_cases hc : c = '.'
    · subst hc
      exact congrArg some (takeFraction_append hxs whole rest)
    · have hpoint (cs : List Char) : (c :: cs).head? ≠ some '.' := fun h => hc (Option.some.inj h)
      rw [List.cons_append, numberAfter?_whole (hpoint _), numberAfter?_whole (hpoint _),
        ← List.cons_append, wholeNumber?_append hxs]

private theorem leaves_numberAfter? {whole : List Char} {r : Token × List Char}
    (h : numberAfter? whole cs = some r) : Leaves cs r.2 := by
  unfold numberAfter? at h
  split at h
  · cases h
    exact (leaves_takeFraction whole _).cons (by decide)
  · exact leaves_wholeNumber? h

private theorem takePlainNumber?_append (hxs : Bordered xs) (c : Char) (cs : List Char) :
    takePlainNumber? (c :: cs ++ xs) =
      (takePlainNumber? (c :: cs)).map fun r => (r.1, r.2 ++ xs) := by
  rw [takePlainNumber?_eq, takePlainNumber?_eq, takeGroup_append isDigit_borders hxs,
    List.cons_append, List.head?_cons, List.head?_cons]
  split
  · exact numberAfter?_append hxs [] (c :: cs)
  · exact numberAfter?_append hxs _ _

/-- A number uses up its first character at least, and no marks. -/
private theorem leaves_takePlainNumber? {r : Token × List Char} (hc : c.isDigit = true ∨ c = '.')
    (h : takePlainNumber? (c :: cs) = some r) : Leaves cs r.2 := by
  rw [takePlainNumber?_eq, List.head?_cons] at h
  split at h
  · rename_i hpoint
    cases hpoint
    cases h
    exact leaves_takeFraction [] cs
  · rename_i hpoint
    have hdigit : c.isDigit = true := hc.resolve_right fun h => hpoint (congrArg some h)
    rw [takeGroup_cons, if_pos hdigit] at h
    exact (leaves_takeGroup isDigit_marks cs).trans (leaves_numberAfter? h)

/-- The tokens of a number, and the rest, when a letter for the imaginary unit may follow. -/
def withUnit (t : Token) : List Char → List Token × List Char
  | c :: more => if c = 'j' ∨ c = 'J' then ([t, .op "*", .imaginary], more) else ([t], c :: more)
  | [] => ([t], [])

private theorem withUnit_cons (t : Token) (c : Char) (cs : List Char) : withUnit t (c :: cs) =
    if c = 'j' ∨ c = 'J' then ([t, .op "*", .imaginary], cs) else ([t], c :: cs) := rfl

theorem takeNumber?_eq (cs : List Char) :
    takeNumber? cs = (takePlainNumber? cs).map fun r => withUnit r.1 r.2 := by
  unfold takeNumber?
  cases takePlainNumber? cs with
  | none => rfl
  | some r =>
    obtain ⟨t, rest⟩ := r
    cases rest with
    | nil => rfl
    | cons c more =>
      dsimp only [Option.map_some, withUnit]
      split <;> rfl

private theorem withUnit_append (hxs : Bordered xs) (t : Token) (rest : List Char) :
    withUnit t (rest ++ xs) = ((withUnit t rest).1, (withUnit t rest).2 ++ xs) := by
  cases rest with
  | nil =>
    cases xs with
    | nil => rfl
    | cons x xs =>
      have hx := hxs x rfl
      rw [List.nil_append, withUnit_cons, if_neg]
      · rfl
      · rintro (rfl | rfl) <;> exact absurd hx (by decide)
  | cons c rest =>
    rw [List.cons_append, withUnit_cons, withUnit_cons]
    split <;> rfl

private theorem leaves_withUnit (t : Token) (cs : List Char) : Leaves cs (withUnit t cs).2 := by
  unfold withUnit
  split
  · split
    · rename_i hc
      refine (Leaves.refl _).cons ?_
      rcases hc with rfl | rfl <;> decide
    · exact .refl _
  · exact .refl _

/-- What comes after a `Bordered` text is not seen by `takeNumber?`, whichever form the number
has. -/
theorem takeNumber?_append (hxs : Bordered xs) (c : Char) (cs : List Char) :
    takeNumber? (c :: cs ++ xs) = (takeNumber? (c :: cs)).map fun r => (r.1, r.2 ++ xs) := by
  rw [takeNumber?_eq, takeNumber?_eq, takePlainNumber?_append hxs, Option.map_map,
    Option.map_map]
  congr 1
  funext r
  exact withUnit_append hxs r.1 r.2

theorem leaves_takeNumber? {r : List Token × List Char} (hc : c.isDigit = true ∨ c = '.')
    (h : takeNumber? (c :: cs) = some r) : Leaves cs r.2 := by
  rw [takeNumber?_eq] at h
  obtain ⟨q, hq, rfl⟩ := Option.map_eq_some_iff.mp h
  exact (leaves_takePlainNumber? hc hq).trans (leaves_withUnit q.1 q.2)

/-! ### Words -/

/-- Taking characters that are no `borders` stops before a `Bordered` text. -/
theorem takeWhile_append_bordered {p : Char → Bool} (h : ∀ x ∈ borders, p x = false)
    (hxs : Bordered xs) (cs : List Char) : (cs ++ xs).takeWhile p = cs.takeWhile p := by
  induction cs with
  | nil =>
    cases xs with
    | nil => rfl
    | cons x xs => exact List.takeWhile_cons_of_neg (by rw [h x (hxs x rfl)]; decide)
  | cons c cs ih =>
    rw [List.cons_append, List.takeWhile_cons, List.takeWhile_cons, ih]

/-- Dropping characters that are no `borders` stops before a `Bordered` text. -/
theorem dropWhile_append_bordered {p : Char → Bool} (h : ∀ x ∈ borders, p x = false)
    (hxs : Bordered xs) (cs : List Char) : (cs ++ xs).dropWhile p = cs.dropWhile p ++ xs := by
  induction cs with
  | nil =>
    cases xs with
    | nil => rfl
    | cons x xs => exact List.dropWhile_cons_of_neg (by rw [h x (hxs x rfl)]; decide)
  | cons c cs ih =>
    rw [List.cons_append, List.dropWhile_cons, List.dropWhile_cons, ih]
    split <;> rfl

/-- Dropping characters that are no `marks` cuts off no marks. -/
theorem leaves_dropWhile {p : Char → Bool} (h : ∀ x ∈ marks, p x = false) (cs : List Char) :
    Leaves cs (cs.dropWhile p) :=
  ⟨cs.takeWhile p, List.takeWhile_append_dropWhile.symm, fun _ hc =>
    not_mem_marks h (List.mem_takeWhile_imp hc)⟩

/-! ### Operators -/

/-- No operator has a border behind its first character. -/
theorem toList_operators {s : String} (h : s ∈ operators) :
    s.toList ≠ [] ∧ ∀ x ∈ s.toList.tail, x ∉ borders := by
  have hall : ∀ s ∈ operators, s.toList ≠ [] ∧ s.toList.tail.any (borders.contains ·) = false := by
    decide +kernel
  refine ⟨(hall s h).1, fun x hx hborder => ?_⟩
  have hno := forall_of_any (hall s h).2 x hx
  rw [List.contains_iff_mem.mpr hborder] at hno
  cases hno

/-- No operator goes on after a blank or with a closing parenthesis. -/
private theorem isPrefixOf_append (hxs : Bordered xs) (c : Char) (cs : List Char) {s : String}
    (hs : s ∈ operators) : s.toList.isPrefixOf (c :: cs ++ xs) = s.toList.isPrefixOf (c :: cs) := by
  rw [Bool.eq_iff_iff, List.isPrefixOf_iff_prefix, List.isPrefixOf_iff_prefix]
  refine ⟨fun h => ?_, fun h => h.trans (List.prefix_append ..)⟩
  rcases List.prefix_or_prefix_of_prefix h (List.prefix_append (c :: cs) xs) with hfront | hlonger
  · exact hfront
  · obtain ⟨more, hmore⟩ := hlonger
    rw [← hmore] at h ⊢
    have hprefix := (List.prefix_append_right_inj _).mp h
    cases more with
    | nil => exact (List.append_nil (c :: cs)).symm ▸ List.prefix_rfl
    | cons x more =>
      obtain ⟨rest, rfl⟩ := hprefix
      refine absurd (hxs x rfl) ((toList_operators hs).2 x ?_)
      rw [← hmore]
      exact List.mem_append_right _ List.mem_cons_self

theorem takeOperator?_append (hxs : Bordered xs) (c : Char) (cs : List Char) :
    takeOperator? (c :: cs ++ xs) = (takeOperator? (c :: cs)).map fun r => (r.1, r.2 ++ xs) := by
  unfold takeOperator?
  rw [List.map_findSome?, ← List.head?_filterMap, ← List.head?_filterMap]
  congr 1
  refine List.filterMap_congr fun s hs => ?_
  rw [isPrefixOf_append hxs c cs hs, Function.comp_apply]
  split
  · rename_i hprefix
    have hlength := (List.isPrefixOf_iff_prefix.mp hprefix).length_le
    rw [String.length_toList] at hlength
    rw [List.drop_append_of_le_length hlength]
    rfl
  · rfl

theorem takeOperator?_eq_some {r : String × List Char} (h : takeOperator? cs = some r) :
    r.1 ∈ operators ∧ cs = r.1.toList ++ r.2 := by
  obtain ⟨s, hs, hr⟩ := List.exists_of_findSome?_eq_some h
  split at hr
  · rename_i hprefix
    cases hr
    obtain ⟨rest, rfl⟩ := List.isPrefixOf_iff_prefix.mp hprefix
    refine ⟨hs, ?_⟩
    rw [← String.length_toList, List.drop_left]
  · cases hr

end FluxBalance.Equation.Token
