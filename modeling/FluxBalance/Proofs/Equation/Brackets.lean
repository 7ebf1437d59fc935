import FluxBalance.Equation.Reader
import Mathlib.Algebra.Order.Group.Unbundled.Int
import Mathlib.Data.List.Basic

/-!
# Brackets and calls among tokens

The brackets of some tokens are `Balanced` if each of them is closed among the tokens and none
closes what was opened before. What is balanced, and followed by a bracket that closes, ends there
in one way only, so a list in brackets has one end.

A name is called where a parenthesis comes right after it. A call needs two tokens, so tokens that
are put together have no calls but their own, unless the later ones begin with a parenthesis.

## Main definitions and results

* `depth`, `Balanced`: how deep brackets are nested, and tokens whose brackets match;
* `Calls`, `Heeds`: names that are called, and none that stands alone elsewhere;
* `Balanced.eq_of_append`: balanced tokens before a closing bracket end in one place.
-/

namespace FluxBalance.Equation.Reader

/-! ### Brackets -/

/-- How much a token changes the depth of brackets. -/
def weight : Token → Int
  | .op s =>
    if s = "(" ∨ s = "[" ∨ s = "\x7b" then 1
    else if s = ")" ∨ s = "]" ∨ s = "\x7d" then -1
    else 0
  | _ => 0

/-- The depth of brackets after some tokens. -/
def depth : List Token → Int
  | [] => 0
  | t :: ts => weight t + depth ts

/-- The brackets of some tokens are closed in the tokens, and no other brackets are. -/
def Balanced (ts : List Token) : Prop := depth ts = 0 ∧ ∀ n, 0 ≤ depth (ts.take n)

/-- A bracket at the front counts by its `weight`. -/
theorem depth_cons (t : Token) (ts : List Token) : depth (t :: ts) = weight t + depth ts := rfl

/-- The `depth` adds up over tokens that are put together. -/
theorem depth_append (ts us : List Token) : depth (ts ++ us) = depth ts + depth us := by
  induction ts with
  | nil => exact (Int.zero_add _).symm
  | cons t ts ih => rw [List.cons_append, depth_cons, depth_cons, ih, Int.add_assoc]

theorem balanced_nil : Balanced [] :=
  ⟨rfl, fun n => by rw [List.take_nil]; exact Int.le_refl 0⟩

theorem Balanced.append {ts us : List Token} (ht : Balanced ts) (hu : Balanced us) :
    Balanced (ts ++ us) := by
  refine ⟨by rw [depth_append, ht.1, hu.1, add_zero], fun n => ?_⟩
  rw [List.take_append, depth_append]
  exact Int.add_nonneg (ht.2 _) (hu.2 _)

theorem depth_singleton (t : Token) : depth [t] = weight t := Int.add_zero _

theorem depth_take_singleton (t : Token) (n : Nat) :
    depth ([t].take n) = 0 ∨ depth ([t].take n) = weight t := by
  cases n with
  | zero => exact .inl rfl
  | succ n =>
    rw [List.take_succ_cons, List.take_nil, depth_singleton]
    exact .inr rfl

theorem balanced_singleton {t : Token} (h : weight t = 0) : Balanced [t] := by
  refine ⟨(depth_singleton t).trans h, fun n => ?_⟩
  have := depth_take_singleton t n
  omega

/-- A token that is no bracket may stand before `Balanced` tokens. -/
theorem Balanced.cons {t : Token} {ts : List Token} (ht : weight t = 0) (h : Balanced ts) :
    Balanced (t :: ts) :=
  (balanced_singleton ht).append h

/-- Balanced tokens between a bracket that opens and one that closes are `Balanced`. -/
theorem Balanced.bracket {t u : Token} {ts : List Token} (ht : weight t = 1) (hu : weight u = -1)
    (h : Balanced ts) : Balanced (t :: (ts ++ [u])) := by
  refine ⟨?_, fun n => ?_⟩
  · rw [depth_cons, depth_append, h.1, depth_singleton, ht, hu]
    rfl
  · cases n with
    | zero => exact Int.le_refl 0
    | succ n =>
      rw [List.take_succ_cons, depth_cons, List.take_append, depth_append, ht]
      have := h.2 n
      have := depth_take_singleton u (n - ts.length)
      omega

/-- The first bracket that closes what was not opened marks the end of what is `Balanced`. -/
theorem Balanced.eq_of_append {ts us vs ws : List Token} {t u : Token} (hts : Balanced ts)
    (hus : Balanced us) (ht : weight t = -1) (hu : weight u = -1)
    (h : ts ++ t :: vs = us ++ u :: ws) : ts = us := by
  have key : ∀ {ts vs : List Token} {t : Token}, Balanced ts → Balanced (ts ++ t :: vs) →
      weight t ≠ -1 := by
    intro ts vs t hts hall ht
    have hdepth := hall.2 (ts.length + 1)
    rw [List.take_append, List.take_of_length_le (Nat.le_succ _), depth_append, hts.1,
      Nat.add_sub_cancel_left, List.take_succ_cons, List.take_zero, depth_singleton, ht] at hdepth
    exact absurd hdepth (by decide)
  rcases List.append_eq_append_iff.mp h with ⟨as, rfl, has⟩ | ⟨as, rfl, has⟩
  · cases as with
    | nil => exact (List.append_nil _).symm
    | cons a as =>
      cases has
      exact absurd ht (key hts hus)
  · cases as with
    | nil => exact List.append_nil _
    | cons a as =>
      cases has
      exact absurd hu (key hus hts)

/-! ### Calls -/

/-- Among the tokens is a name right before a parenthesis. -/
def Calls (ts : List Token) (f : String) : Prop := [.name f, .op "("] <:+: ts

theorem Calls.append_left {ts : List Token} {f : String} (h : Calls ts f) (us : List Token) :
    Calls (ts ++ us) f :=
  h.trans (List.prefix_append ts us).isInfix

theorem Calls.append_right {us : List Token} {f : String} (h : Calls us f) (ts : List Token) :
    Calls (ts ++ us) f :=
  h.trans (List.suffix_append ts us).isInfix

/-- A name is called at the front of some tokens or later. -/
theorem calls_cons {t : Token} {ts : List Token} {f : String} :
    Calls (t :: ts) f ↔ (t = .name f ∧ ts.head? = some (.op "(")) ∨ Calls ts f := by
  unfold Calls
  rw [List.infix_cons_iff, List.cons_prefix_cons, eq_comm]
  refine or_congr (and_congr_right fun _ => ?_) Iff.rfl
  cases ts with
  | nil => simp
  | cons u us => simp [eq_comm]

/-- There are no other calls, unless the last tokens begin with a parenthesis. -/
theorem calls_append {ts us : List Token} {f : String} (hus : us.head? ≠ some (.op "(")) :
    Calls (ts ++ us) f ↔ Calls ts f ∨ Calls us f := by
  induction ts with
  | nil => simp [Calls]
  | cons t ts ih =>
    rw [List.cons_append, calls_cons, calls_cons, ih, ← or_assoc]
    cases ts with
    | nil => simp [hus]
    | cons u ts => rfl

/-- No name that is called, apart from `keywords`, stands alone somewhere. -/
def Heeds (bare : List String) (ts : List Token) : Prop :=
  ∀ f, f ∉ keywords → Calls ts f → f ∉ bare

theorem heeds_nil (bare : List String) : Heeds bare [] := fun f _ h => by simp [Calls] at h

/-- Tokens that are put together heed the names that both of them heed, unless the last ones begin
with a parenthesis. -/
theorem Heeds.append {bare : List String} {ts us : List Token} (ht : Heeds bare ts)
    (hu : Heeds bare us) (hus : us.head? ≠ some (.op "(")) : Heeds bare (ts ++ us) :=
  fun f hf h => ((calls_append hus).mp h).elim (ht f hf) (hu f hf)

/-- A token that is no name but a keyword calls nothing. -/
theorem Heeds.cons {bare : List String} {t : Token} {ts : List Token} (h : Heeds bare ts)
    (ht : ∀ f, t = .name f → f ∈ keywords) : Heeds bare (t :: ts) := fun f hf hcalls => by
  rcases calls_cons.mp hcalls with ⟨rfl, -⟩ | hcalls
  · exact absurd (ht f rfl) hf
  · exact h f hf hcalls

theorem not_calls_singleton (t : Token) (f : String) : ¬Calls [t] f := fun h => by
  rcases calls_cons.mp h with ⟨-, h⟩ | h
  · cases h
  · simp [Calls] at h

theorem heeds_singleton (bare : List String) (t : Token) : Heeds bare [t] := fun f _ hcalls =>
  absurd hcalls (not_calls_singleton t f)

/-- Of the names that the tokens call, no more are in the first list than in the second one. -/
def NoWider (bare' bare : List String) (ts : List Token) : Prop :=
  ∀ f, f ∉ keywords → Calls ts f → f ∈ bare' → f ∈ bare

/-- Fewer tokens need no more: `NoWider` holds of the first ones. -/
theorem NoWider.left {bare' bare : List String} {ts us : List Token}
    (h : NoWider bare' bare (ts ++ us)) : NoWider bare' bare ts :=
  fun f hf hcalls => h f hf (hcalls.append_left us)

/-- Fewer tokens need no more: `NoWider` holds of the last ones. -/
theorem NoWider.right {bare' bare : List String} {ts us : List Token}
    (h : NoWider bare' bare (ts ++ us)) : NoWider bare' bare us :=
  fun f hf hcalls => h f hf (hcalls.append_right ts)

/-- Fewer tokens need no more: `NoWider` holds of all but the first one. -/
theorem NoWider.tail {bare' bare : List String} {t : Token} {ts : List Token}
    (h : NoWider bare' bare (t :: ts)) : NoWider bare' bare ts :=
  fun f hf hcalls => h f hf (hcalls.append_right [t])

/-- A token that opens no bracket is no parenthesis. -/
theorem head?_ne_of_weight {t : Token} (ht : weight t = 0) (ts : List Token) :
    (t :: ts).head? ≠ some (.op "(") := by
  intro h
  cases h
  exact absurd ht (by decide)

end FluxBalance.Equation.Reader
