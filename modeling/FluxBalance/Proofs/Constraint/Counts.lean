import FluxBalance.Proofs.Constraint.Attempts

/-!
# How many equations a builder holds

An attempt is counted before its equation is taken, so after an equation has been accepted there are
at least as many unknowns as equations, whatever was the case before. The seed is not counted: it is
taken if it can be read. So a builder holds more equations than unknowns only as long as it holds
nothing but a seed without unknowns.

Such a builder is over-constrained until it accepts another equation, which has at least two
unknowns then. From there on it may become constrained although its seed has no unknown.

## Main definitions and results

* `Counted`: how the equations and the unknowns of a builder compare, given its seed and what it has
  taken;
* `counted_of_new`: builders are `Counted` after any attempts;
* `exists_overconstrained`: builders from the seed `unknownless`, one of them over-constrained.
-/

namespace FluxBalance.SystemBuilder

variable {α : Type} [Evaluable α] {context : Context α} {b : SystemBuilder α}

/-- A builder has too many `equations` if there are more than `unknowns`. -/
private theorem status_eq_tooMany_iff :
    b.status = .tooMany ↔ b.unknowns.length < b.equations.length :=
  ConstraintStatus.ofCounts_eq_tooMany

/-! ### One attempt -/

/-- **After an equation has been accepted there are at least as many `unknowns` as `equations`**,
whatever was the case before. -/
theorem length_le_attempt_of_accepts {text : String} (h : b.accepts text = true) :
    (b.attempt text).equations.length ≤ (b.attempt text).unknowns.length := by
  obtain ⟨e, he, hle⟩ := accepts_iff.mp h
  obtain ⟨e', he', hattempt, -⟩ := attempt_of_accepts h
  obtain rfl : e = e' := Except.ok.inj (he.symm.trans he')
  rw [card_unknowns_union] at hle
  rw [hattempt, List.length_append, List.length_singleton]
  exact hle

/-- An attempt does not make the `equations` more than the `unknowns`. -/
private theorem length_le_attempt (h : b.equations.length ≤ b.unknowns.length) (text : String) :
    (b.attempt text).equations.length ≤ (b.attempt text).unknowns.length := by
  cases haccepts : b.accepts text with
  | true => exact length_le_attempt_of_accepts haccepts
  | false =>
    rw [attempt_of_rejects haccepts]
    exact h

/-! ### Runs of attempts -/

/-- Attempts do not make the `equations` more than the `unknowns`, by induction on them. -/
private theorem length_le_foldl_attempt :
    ∀ (attempts : List String) {b : SystemBuilder α}, b.equations.length ≤ b.unknowns.length →
      (attempts.foldl attempt b).equations.length ≤ (attempts.foldl attempt b).unknowns.length
  | [], _, h => h
  | text :: attempts, _, h => length_le_foldl_attempt attempts (length_le_attempt h text)

/-- Where nothing is accepted, nothing changes. -/
private theorem foldl_attempt_of_accepted_eq_nil :
    ∀ {attempts : List String} {b : SystemBuilder α}, b.accepted attempts = [] →
      attempts.foldl attempt b = b
  | [], _, _ => rfl
  | text :: attempts, b, h => by
    cases haccepts : b.accepts text with
    | true =>
      rw [accepted, haccepts, if_pos rfl] at h
      cases h
    | false =>
      rw [accepted, haccepts, if_neg Bool.false_ne_true, attempt_of_rejects haccepts] at h
      rw [List.foldl_cons, attempt_of_rejects haccepts, foldl_attempt_of_accepted_eq_nil h]

/-- The first equation that is accepted brings the builder up to at least as many `unknowns` as
equations, and it stays so. -/
private theorem first_of_accepted_ne_nil :
    ∀ {attempts : List String} {b : SystemBuilder α}, b.accepted attempts ≠ [] →
      (attempts.foldl attempt b).equations.length ≤ (attempts.foldl attempt b).unknowns.length ∧
        ∃ first rest e, b.accepted attempts = first :: rest ∧
          Expression.ofText first b.context = .ok e ∧
          b.equations.length + 1 ≤ (unknownsOf (b.equations ++ [e])).length
  | [], _, h => absurd rfl h
  | text :: attempts, b, h => by
    cases haccepts : b.accepts text with
    | true =>
      obtain ⟨e, he, hle⟩ := accepts_iff.mp haccepts
      rw [card_unknowns_union] at hle
      exact ⟨length_le_foldl_attempt attempts (length_le_attempt_of_accepts haccepts), text, _, e,
        by rw [accepted, haccepts, if_pos rfl], he, hle⟩
    | false =>
      have hsame := attempt_of_rejects haccepts
      rw [accepted, haccepts, if_neg Bool.false_ne_true, hsame] at h ⊢
      rw [List.foldl_cons, hsame]
      exact first_of_accepted_ne_nil h

/-! ### Seeds -/

/-- How the equations of a builder compare with its unknowns, where its seed has the unknowns `vars`
and the texts in `taken` have been accepted since. -/
structure Counted (context : Context α) (vars taken : List String) (b : SystemBuilder α) :
    Prop where
  /-- There are more `equations` than `unknowns` exactly if there is nothing but a seed without
  unknowns. -/
  lt_iff : b.unknowns.length < b.equations.length ↔ vars = [] ∧ taken = []
  /-- It is reported exactly then that there are too many equations. -/
  status_iff : b.status = .tooMany ↔ vars = [] ∧ taken = []
  /-- If the system is reported to be constrained, the seed has an unknown, or the equation that was
  accepted first has two at least. -/
  constrained : b.status = .constrained → vars ≠ [] ∨ ∃ first rest e, taken = first :: rest ∧
    Expression.ofText first context = .ok e ∧ 2 ≤ e.vars.length

/-- **A builder is over-constrained only by a seed without unknowns**, and only until it accepts
another equation. -/
theorem counted_of_new {seed : String} (h : new seed context = .ok b) (attempts : List String) :
    ∃ e, Expression.ofText seed context = .ok e ∧
      Counted context e.vars (b.accepted attempts) (attempts.foldl attempt b) := by
  obtain ⟨e, he, rfl⟩ := new_eq_ok h
  have hseed : (⟨context, [e]⟩ : SystemBuilder α).unknowns.length = e.vars.length :=
    length_unknownsOf_singleton he
  have hlt : (attempts.foldl attempt ⟨context, [e]⟩).unknowns.length <
      (attempts.foldl attempt ⟨context, [e]⟩).equations.length ↔
        e.vars = [] ∧ (⟨context, [e]⟩ : SystemBuilder α).accepted attempts = [] := by
    by_cases hnil : (⟨context, [e]⟩ : SystemBuilder α).accepted attempts = []
    · rw [foldl_attempt_of_accepted_eq_nil hnil, hseed, List.length_singleton, Nat.lt_one_iff,
        List.length_eq_zero_iff, and_iff_left hnil]
    · have hle := (first_of_accepted_ne_nil hnil).1
      exact iff_of_false (not_lt.mpr hle) fun hboth => hnil hboth.2
  refine ⟨e, he, hlt, status_eq_tooMany_iff.trans hlt, fun hstatus => ?_⟩
  by_cases hvars : e.vars = []
  · -- The seed alone is over-constrained, so something has been accepted.
    have hne : (⟨context, [e]⟩ : SystemBuilder α).accepted attempts ≠ [] := by
      intro hnil
      have hmany := hlt.mpr ⟨hvars, hnil⟩
      have heq := status_eq_constrained_iff.mp hstatus
      omega
    obtain ⟨-, first, rest, f, htaken, hf, hle⟩ := first_of_accepted_ne_nil hne
    have hadds := length_unknownsOf_append_le [e] f
    have hzero : (unknownsOf [e]).length = 0 := by
      rw [length_unknownsOf_singleton he, hvars, List.length_nil]
    refine .inr ⟨first, rest, f, htaken, hf, ?_⟩
    dsimp only at hle
    rw [List.length_singleton] at hle
    omega
  · exact .inl hvars

/-- An equation without unknowns that holds. -/
def unknownless : String := "3 = 3"

/-- It is taken as a seed, of which there are too many equations then; and with an equation in two
unknowns the system is reported to be constrained. -/
private theorem new_unknownless : ∃ b : SystemBuilder Float, new unknownless [] = .ok b ∧
    b.status = .tooMany ∧ (["x = 1", "x + y = 1"].foldl attempt b).status = .constrained ∧
    ∀ e, Expression.ofText unknownless ([] : Context Float) = .ok e → e.vars = [] := by
  have hdone : (new unknownless ([] : Context Float)).toOption.map (fun b =>
      (b.status, (["x = 1", "x + y = 1"].foldl attempt b).status)) =
        some (.tooMany, .constrained) := by decide +kernel
  have hvars : (Expression.ofText unknownless ([] : Context Float)).toOption.map (·.vars) =
      some [] := by decide +kernel
  obtain ⟨b, hb, hstatus⟩ := Option.map_eq_some_iff.mp hdone
  obtain ⟨hseed, hlater⟩ := Prod.mk.inj hstatus
  refine ⟨b, except_toOption_eq_some.mp hb, hseed, hlater, fun e he => ?_⟩
  rw [he] at hvars
  exact Option.some.inj hvars

/-- A builder with the seed `unknownless` accepts an equation with two unknowns. -/
theorem counted_unknownless : ∃ (b : SystemBuilder Float) (e : Expression Float),
    new unknownless [] = .ok b ∧ Expression.ofText unknownless [] = .ok e ∧
      Counted [] e.vars (b.accepted ["x = 1", "x + y = 1"])
        (["x = 1", "x + y = 1"].foldl attempt b) := by
  obtain ⟨b, hb, -⟩ := new_unknownless
  obtain ⟨e, he, hcounted⟩ := counted_of_new hb ["x = 1", "x + y = 1"]
  exact ⟨b, e, hb, he, hcounted⟩

/-- **A builder may be over-constrained**, and it may be constrained although its seed has no
unknown. -/
theorem exists_overconstrained :
    (¬ ∀ (seed : String) (context : Context Float) (b : SystemBuilder Float)
      (attempts : List String), new seed context = .ok b →
        (attempts.foldl attempt b).equations.length ≤ (attempts.foldl attempt b).unknowns.length ∧
          (attempts.foldl attempt b).status ≠ .tooMany) ∧
    ¬ ∀ (seed : String) (context : Context Float) (b : SystemBuilder Float)
      (attempts : List String), new seed context = .ok b →
        (attempts.foldl attempt b).status = .constrained →
          ∃ e, Expression.ofText seed context = .ok e ∧ e.vars ≠ [] := by
  obtain ⟨b, hb, hmany, hconstrained, hvars⟩ := new_unknownless
  refine ⟨fun h => (h unknownless [] b [] hb).2 hmany, fun h => ?_⟩
  obtain ⟨e, he, hne⟩ := h unknownless [] b _ hb hconstrained
  exact hne (hvars e he)

end FluxBalance.SystemBuilder
