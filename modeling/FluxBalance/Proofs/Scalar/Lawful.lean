import FluxBalance.Scalar

/-!
# Laws of scalars

Two scalars are the same, `Scalar.Same`, when they are identical or numerically equal. On
doubles this joins the two zeros and nothing else, and it lets an undefined number be the same
as itself, which numerical equality does not.

`Scalar.Lawful` collects what holds of doubles as well as of exact numbers: sums, differences,
products, signs and square roots of the same numbers are the same, finite numbers are ordered, and
a finite number less itself is zero. Nothing is said about associativity, so results that rest on
these laws alone hold for the arithmetic that the program runs with.

## Main definitions and results

* `Same`: numbers that are identical or numerically equal;
* `Lawful`, `LawfulFinite`: the laws that doubles share with exact numbers.
-/

namespace FluxBalance.Scalar

variable {α : Type} [Scalar α]

/-- Identical, or numerically equal. -/
def Same (x y : α) : Prop := x = y ∨ eq x y = true

/-- The laws that doubles have in common with exact numbers. -/
class Lawful (α : Type) [Scalar α] : Prop where
  eq_symm {x y : α} : eq x y = true → eq y x = true
  eq_trans {x y z : α} : eq x y = true → eq y z = true → eq x z = true
  add_same {x x' y y' : α} : Same x x' → Same y y' → Same (x + y) (x' + y')
  sub_same {x x' y y' : α} : Same x x' → Same y y' → Same (x - y) (x' - y')
  mul_same {x x' y y' : α} : Same x x' → Same y y' → Same (x * y) (x' * y')
  neg_same {x x' : α} : Same x x' → Same (-x) (-x')
  sqrt_same {x x' : α} : Same x x' → Same (sqrt x) (sqrt x')
  lt_same {x x' y y' : α} : Same x x' → Same y y' → lt x y = lt x' y'
  isFinite_zero : isFinite (0 : α) = true
  isFinite_neg {x : α} : isFinite x = true → isFinite (-x) = true
  lt_trans {x y z : α} : lt x y = true → lt y z = true → lt x z = true
  lt_of_not_lt {x y z : α} : isFinite x = true → isFinite y = true → lt x y = false →
    lt x z = true → lt y z = true
  sub_self {x : α} : isFinite x = true → eq (x - x) 0 = true
  zero_div {x y : α} : eq x 0 = true → isFinite (x / y) = true → eq (x / y) 0 = true

/-- Besides, of numbers that are the same either both are finite or neither is. -/
class LawfulFinite (α : Type) [Scalar α] : Prop extends Lawful α where
  isFinite_same {x y : α} : Same x y → isFinite x = isFinite y

/-! ### Sameness -/

namespace Same

/-- A number is the same as itself, also if it is undefined. -/
@[refl]
theorem refl (x : α) : Same x x := .inl rfl

theorem of_eq {x y : α} (h : eq x y = true) : Same x y := .inr h

variable [Lawful α]

@[symm]
theorem symm {x y : α} (h : Same x y) : Same y x :=
  h.imp Eq.symm Lawful.eq_symm

theorem trans {x y z : α} (h : Same x y) (h' : Same y z) : Same x z := by
  rcases h with rfl | h
  · exact h'
  · rcases h' with rfl | h'
    · exact .inr h
    · exact .inr (Lawful.eq_trans h h')

/-- Numerical equality does not tell the same numbers apart. -/
private theorem eq_congr {x x' y y' : α} (hx : Same x x') (hy : Same y y') : eq x y = eq x' y' := by
  have key : ∀ {a a' b b' : α}, Same a a' → Same b b' → eq a b = true → eq a' b' = true := by
    rintro a a' b b' (rfl | ha) (rfl | hb) h
    · exact h
    · exact Lawful.eq_trans h hb
    · exact Lawful.eq_trans (Lawful.eq_symm ha) h
    · exact Lawful.eq_trans (Lawful.eq_trans (Lawful.eq_symm ha) h) hb
  rw [Bool.eq_iff_iff]
  exact ⟨key hx hy, key hx.symm hy.symm⟩

theorem abs {x x' : α} (h : Same x x') : Same (Scalar.abs x) (Scalar.abs x') := by
  unfold Scalar.abs
  rw [Lawful.lt_same h (refl 0), eq_congr h (refl 0)]
  split
  · exact Lawful.neg_same h
  · split
    · exact refl 0
    · exact h

theorem sign {x x' : α} (h : Same x x') : Same (Scalar.sign x) (Scalar.sign x') := by
  unfold Scalar.sign
  rw [Lawful.lt_same (refl 0) h, Lawful.lt_same h (refl 0), eq_congr h (refl 0)]
  split
  · exact refl 1
  · split
    · exact refl (-1)
    · split
      · exact refl 0
      · exact h

/-- Sums of the same numbers in the same order are the same. -/
theorem sum_map {β : Type} {l : List β} {f g : β → α} (h : ∀ b ∈ l, Same (f b) (g b)) :
    Same (Scalar.sum (l.map f)) (Scalar.sum (l.map g)) := by
  have key : ∀ (l : List β) (a a' : α), Same a a' → (∀ b ∈ l, Same (f b) (g b)) →
      Same ((l.map f).foldl (· + ·) a) ((l.map g).foldl (· + ·) a') := by
    intro l
    induction l with
    | nil => intro a a' ha _; exact ha
    | cons b l ih =>
      intro a a' ha hl
      exact ih _ _ (Lawful.add_same ha (hl b List.mem_cons_self))
        fun c hc => hl c (List.mem_cons_of_mem b hc)
  exact key l 0 0 (refl 0) h

end Same

/-- What is below a number is below every number that is not less. -/
theorem lt_of_lt_of_le [Lawful α] {x y z : α} (h : lt x y = true) (h' : le y z = true) :
    lt x z = true := by
  rcases Bool.or_eq_true_iff.mp h' with h' | h'
  · exact Lawful.lt_trans h h'
  · rw [← Lawful.lt_same (Same.refl x) (.of_eq h')]
    exact h

/-! ### Magnitudes -/

private theorem isFinite_max {x y : α} (hx : isFinite x = true) (hy : isFinite y = true) :
    isFinite (max x y) = true := by
  unfold max
  split
  · exact hy
  · exact hx

/-- The maximum of two numbers below `m` is below `m`. -/
private theorem max_lt {x y m : α} (hx : lt x m = true) (hy : lt y m = true) :
    lt (max x y) m = true := by
  unfold max
  split
  · exact hy
  · exact hx

/-- If all magnitudes in a list are below a positive bound, so is the largest. -/
theorem maxAbs_lt {xs : List α} {m : α} (hm : lt 0 m = true)
    (h : ∀ x ∈ xs, lt (abs x) m = true) : lt (maxAbs xs) m = true := by
  have key : ∀ (xs : List α) (best : α), lt best m = true → (∀ x ∈ xs, lt (abs x) m = true) →
      lt (xs.foldl (fun best y => max best (abs y)) best) m = true := by
    intro xs
    induction xs with
    | nil => exact fun _ hbest _ => hbest
    | cons y ys ih =>
      intro best hbest hall
      obtain ⟨hy, hys⟩ := List.forall_mem_cons.mp hall
      exact ih _ (max_lt hbest hy) hys
  cases xs with
  | nil => exact hm
  | cons y ys =>
    obtain ⟨hy, hys⟩ := List.forall_mem_cons.mp h
    exact key ys _ hy hys

section

variable [Lawful α]

private theorem isFinite_abs {x : α} (h : isFinite x = true) : isFinite (abs x) = true := by
  unfold abs
  split
  · exact Lawful.isFinite_neg h
  · split
    · exact Lawful.isFinite_zero
    · exact h

/-- If the greater of two finite numbers is below a bound, so is each of them. -/
private theorem lt_of_max_lt {x y m : α} (hx : isFinite x = true) (hy : isFinite y = true)
    (h : lt (max x y) m = true) : lt x m = true ∧ lt y m = true := by
  unfold max at h
  split at h
  · rename_i hxy
    exact ⟨Lawful.lt_trans hxy h, h⟩
  · rename_i hxy
    exact ⟨h, Lawful.lt_of_not_lt hx hy (by simpa using hxy) h⟩

/-- If the largest magnitude in a list of finite numbers is below a bound, so are all. -/
theorem abs_lt_of_maxAbs_lt {xs : List α} {m : α} (hfin : ∀ x ∈ xs, isFinite x = true)
    (h : lt (maxAbs xs) m = true) : ∀ x ∈ xs, lt (abs x) m = true := by
  have key : ∀ (xs : List α) (best : α), isFinite best = true →
      (∀ x ∈ xs, isFinite x = true) →
      lt (xs.foldl (fun best y => max best (abs y)) best) m = true →
      lt best m = true ∧ ∀ x ∈ xs, lt (abs x) m = true := by
    intro xs
    induction xs with
    | nil => intro best _ _ hlt; exact ⟨hlt, by simp⟩
    | cons y ys ih =>
      intro best hbest hall hlt
      have hy := isFinite_abs (hall y List.mem_cons_self)
      obtain ⟨hmax, hrest⟩ := ih _ (isFinite_max hbest hy)
        (fun x hx => hall x (List.mem_cons_of_mem y hx)) hlt
      obtain ⟨hb, hylt⟩ := lt_of_max_lt hbest hy hmax
      refine ⟨hb, fun x hx => ?_⟩
      rcases List.mem_cons.mp hx with rfl | hx
      · exact hylt
      · exact hrest x hx
  cases xs with
  | nil => simp
  | cons y ys =>
    obtain ⟨hy, hys⟩ := key ys (abs y) (isFinite_abs (hfin y List.mem_cons_self))
      (fun x hx => hfin x (List.mem_cons_of_mem y hx)) h
    intro x hx
    rcases List.mem_cons.mp hx with rfl | hx
    · exact hy
    · exact hys x hx

end

end FluxBalance.Scalar
