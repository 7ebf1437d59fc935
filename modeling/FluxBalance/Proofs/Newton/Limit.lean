import FluxBalance.Proofs.Newton.Bounds
import FluxBalance.Proofs.Newton.Lengths

/-!
# Where an iteration ends

An iteration for a system goes on from an iterate as long as the residuals have values there, these
are not small yet, and the next update can be computed. With a limit of `k` it evaluates its
residuals at no more than `k` iterates. But it computes an update at the last of them as well,
before it finds out that there is none left to go to. So it reports that the limit is exceeded only
if that update, which nobody needs, can be computed; otherwise it fails as the update does.

That an iteration ends at all is due to the limit, as far as it goes from iterate to iterate. Within
an update of a damped iteration the search for a length has no limit. It ends, `Concludes`, if the
factor by which the lengths are shortened is less than one.

## Main definitions and results

* `Reaches`, `Misses`: points that updates lead to, and points that miss the margin;
* `EndsAt`, `exists_endsAt`: how an iteration ends at one of its iterates;
* `ends_within_limit`: how an iteration ends within its limit, if the lengths of its searches fall;
* `exists_limit_not_reported`: with `oneIterate` the function of `squareMoreSystem` ends by a
  singular Jacobian.
-/

namespace FluxBalance.Newton

open FluxBalance.Computation

variable {ν α σ : Type} [Scalar α]

/-! ### Iterates -/

section

variable (rs : List (Residual ν α σ)) (cfg : Config α) (bounds : Bounds ν α)

/-- The residuals have these values at the point, and the largest of them is not below the
margin. -/
structure Misses (x : Assignment ν α) (s : σ) (values : List α) (s' : σ) : Prop where
  evaluates : evaluateAll x rs s = .ok values s'
  large : ¬Scalar.lt (Scalar.maxAbs values) cfg.margin = true

/-- The given number of updates leads from a point in a state to another one, and all points before
that have missed the margin. -/
inductive Reaches : Nat → Assignment ν α → σ → Assignment ν α → σ → Prop
  | refl (x : Assignment ν α) (s : σ) : Reaches 0 x s x s
  | step {n : Nat} {x y z : Assignment ν α} {values : List α} {s s₁ s₂ s' : σ} :
    Misses rs cfg x s values s₁ → systemUpdate rs cfg bounds x values s₁ = .ok y s₂ →
    Reaches n y s₂ z s' → Reaches (n + 1) x s z s'

/-- The update at a point, where the residuals have the given values, is computed in finitely many
steps: if it comes to a search for the length, this search ends. -/
def Concludes (x : Assignment ν α) (values : List α) (s : σ) : Prop :=
  ∀ J s', jacobian rs cfg.step x s = .ok J s' → J.invertSquare.1 = .success →
    cfg.damping = true → ∃ r, SearchEnds rs bounds x (newtonUpdate J.invertSquare.2 values)
      (cfg.decrease * Scalar.maxAbs values) cfg.shorten 1 s' r

/-- How an iteration ends at an iterate. The proposition says that this is the last iterate which
the limit allows. -/
inductive EndsAt (isLast : Prop) (x : Assignment ν α) (s : σ) :
    EStateM.Result (Error α) σ (Assignment ν α) → Prop
  /-- The residuals are small. -/
  | converged {values : List α} {s' : σ} : evaluateAll x rs s = .ok values s' →
    Scalar.lt (Scalar.maxAbs values) cfg.margin = true → EndsAt isLast x s (.ok x s')
  /-- A residual has no value. -/
  | unevaluated {e : Error α} {s' : σ} : evaluateAll x rs s = .error e s' →
    EndsAt isLast x s (.error e s')
  /-- There is no update. -/
  | stuck {values : List α} {e : Error α} {s₁ s' : σ} : Misses rs cfg x s values s₁ →
    systemUpdate rs cfg bounds x values s₁ = .error e s' → EndsAt isLast x s (.error e s')
  /-- There is an update, but the limit does not allow another iterate. -/
  | exceeded {values : List α} {y : Assignment ν α} {s₁ s' : σ} : isLast →
    Misses rs cfg x s values s₁ → systemUpdate rs cfg bounds x values s₁ = .ok y s' →
    EndsAt isLast x s (.error (.iterationLimit cfg.limit (some (Scalar.maxAbs values))) s')

end

variable {rs : List (Residual ν α σ)} {cfg : Config α} {bounds : Bounds ν α}
  {x y : Assignment ν α} {values : List α} {s s' s₁ : σ} {n : Nat}

/-- From a point that `Misses` the margin the iteration goes on as its update does. -/
theorem Misses.systemIterate_eq (h : Misses rs cfg x s values s₁) (last : Option α) :
    systemIterate rs cfg bounds (n + 1) last x s = (systemUpdate rs cfg bounds x values >>=
      systemIterate rs cfg bounds n (some (Scalar.maxAbs values))) s₁ := by
  rw [systemIterate, bind_apply, h.evaluates]
  dsimp only
  rw [if_neg h.large]

/-- An iteration goes on from each of its iterates as if it had begun there. -/
theorem Reaches.systemIterate_eq {j : Nat} (h : Reaches rs cfg bounds j x s y s') :
    ∀ last last' : Option α, systemIterate rs cfg bounds (j + (n + 1)) last x s =
      systemIterate rs cfg bounds (n + 1) last' y s' := by
  induction h with
  | refl x s =>
    intro last last'
    rw [Nat.zero_add]
    rfl
  | @step j x y z values s s₁ s₂ s' hmisses hupdate _ ih =>
    intro last last'
    rw [show j + 1 + (n + 1) = j + (n + 1) + 1 by omega, hmisses.systemIterate_eq, bind_apply,
      hupdate]
    exact ih _ _

/-- Being the last iterate enters `EndsAt` as a condition that may be weakened. -/
theorem EndsAt.mono {p q : Prop} (hpq : p → q) {r : EStateM.Result (Error α) σ (Assignment ν α)}
    (h : EndsAt rs cfg bounds p x s r) : EndsAt rs cfg bounds q x s r := by
  cases h with
  | converged hvalues hsmall => exact .converged hvalues hsmall
  | unevaluated hvalues => exact .unevaluated hvalues
  | stuck hmisses hupdate => exact .stuck hmisses hupdate
  | exceeded hlast hmisses hupdate => exact .exceeded (hpq hlast) hmisses hupdate

/-- At an iterate the iteration ends for a reason of its own, or there is a next one. -/
private theorem endsAt_or_exists_next (n : Nat) (last : Option α) (x : Assignment ν α) (s : σ) :
    EndsAt rs cfg bounds False x s (systemIterate rs cfg bounds (n + 1) last x s) ∨
      ∃ values s₁ y s₂, Misses rs cfg x s values s₁ ∧
        systemUpdate rs cfg bounds x values s₁ = .ok y s₂ := by
  cases hvalues : evaluateAll x rs s with
  | error e s₁ =>
    rw [systemIterate, bind_apply, hvalues]
    exact .inl (.unevaluated hvalues)
  | ok values s₁ =>
    by_cases hsmall : Scalar.lt (Scalar.maxAbs values) cfg.margin = true
    · rw [systemIterate, bind_apply, hvalues]
      dsimp only
      rw [if_pos hsmall]
      exact .inl (.converged hvalues hsmall)
    · have hmisses : Misses rs cfg x s values s₁ := ⟨hvalues, hsmall⟩
      cases hupdate : systemUpdate rs cfg bounds x values s₁ with
      | ok y s₂ => exact .inr ⟨values, s₁, y, s₂, hmisses, hupdate⟩
      | error e s₂ =>
        rw [hmisses.systemIterate_eq, bind_apply, hupdate]
        exact .inl (.stuck hmisses hupdate)

/-- **An iteration `EndsAt` one of its iterates**, of which there are no more than allowed, and it
exceeds the limit at the last of them only. -/
theorem exists_endsAt : ∀ (n : Nat) (last : Option α) (x : Assignment ν α) (s : σ),
    ∃ j ≤ n, ∃ y s₁, Reaches rs cfg bounds j x s y s₁ ∧
      EndsAt rs cfg bounds (j = n) y s₁ (systemIterate rs cfg bounds (n + 1) last x s) := by
  intro n
  induction n with
  | zero =>
    intro last x s
    refine ⟨0, le_rfl, x, s, .refl x s, ?_⟩
    rcases endsAt_or_exists_next 0 last x s with h | ⟨values, s₁, y, s₂, hmisses, hupdate⟩
    · exact h.mono False.elim
    · rw [hmisses.systemIterate_eq, bind_apply, hupdate]
      exact .exceeded rfl hmisses hupdate
  | succ n ih =>
    intro last x s
    rcases endsAt_or_exists_next (n + 1) last x s with h | ⟨values, s₁, y, s₂, hmisses, hupdate⟩
    · exact ⟨0, Nat.zero_le _, x, s, .refl x s, h.mono False.elim⟩
    · obtain ⟨j, hj, z, s₃, hreaches, hends⟩ := ih (some (Scalar.maxAbs values)) y s₂
      rw [hmisses.systemIterate_eq, bind_apply, hupdate]
      exact ⟨j + 1, Nat.succ_le_succ hj, z, s₃, .step hmisses hupdate hreaches,
        hends.mono (congrArg (· + 1))⟩

/-! ### Limits -/

/-- Before the first iterate the settings are checked. -/
private theorem solveSystem_cases (rs : List (Residual ν α σ)) (guess : Assignment ν α)
    (cfg : Config α) (bounds : Bounds ν α) (s : σ) :
    (Scalar.lt 0 cfg.margin = false ∧ solveSystem rs guess cfg bounds s = .error .margin s) ∨
    (rs.length ≠ guess.length ∧
      solveSystem rs guess cfg bounds s = .error (.unequalCounts rs.length guess.length) s) ∨
    solveSystem rs guess cfg bounds s = systemIterate rs cfg bounds cfg.limit.toNat none
      (guess.map fun u => (u.1, clamp u.2 (bounds u.1))) s := by
  by_cases hmargin : Scalar.lt 0 cfg.margin = true
  · by_cases hlen : rs.length = guess.length
    · exact .inr (.inr (solveSystem_eq_systemIterate hmargin hlen s))
    · have hcheck : checkMargin cfg.margin = .ok () := checkMargin_eq_ok_iff.mpr hmargin
      refine .inr (.inl ⟨hlen, ?_⟩)
      rw [solveSystem, hcheck, bind_apply]
      dsimp only [lift, pure, EStateM.pure]
      rw [if_pos hlen]
      rfl
  · have hcheck : checkMargin cfg.margin = .error .margin := if_neg hmargin
    refine .inl ⟨Bool.eq_false_iff.mpr hmargin, ?_⟩
    rw [solveSystem, hcheck]
    rfl

/-- **A limit allows as many updates as iterates.** If the factor of a damped iteration is less than
one, each of its updates is computed in finitely many steps, `Concludes`. A call with the limit
`k + 1` is then refused because of its settings, or it ends at one of its first `k + 1` iterates,
`EndsAt`: it converges there, or a residual has no value, or there is no update, or the limit is
exceeded at the last of them. If all `k + 1` iterates can be reached and evaluated and none meets
the margin, then the update at the last one decides: if it can be computed, the limit is reported,
with the largest residual of that iterate; otherwise the call fails as the update does. -/
theorem ends_within_limit [Dwindling α] (rs : List (Residual ν α σ)) (guess : Assignment ν α)
    (bounds : Bounds ν α) (hshorten : cfg.damping = true → Scalar.lt cfg.shorten 1 = true) {k : Nat}
    (hlimit : cfg.limit = k + 1) (s : σ) :
    (∀ x values s₁, Concludes rs cfg bounds x values s₁) ∧
    ((Scalar.lt 0 cfg.margin = false ∧ solveSystem rs guess cfg bounds s = .error .margin s) ∨
    (rs.length ≠ guess.length ∧
      solveSystem rs guess cfg bounds s = .error (.unequalCounts rs.length guess.length) s) ∨
    ((∃ j ≤ k, ∃ x s₁,
        Reaches rs cfg bounds j (guess.map fun u => (u.1, clamp u.2 (bounds u.1))) s x s₁ ∧
        EndsAt rs cfg bounds (j = k) x s₁ (solveSystem rs guess cfg bounds s)) ∧
      ∀ x s₁ values s₂,
        Reaches rs cfg bounds k (guess.map fun u => (u.1, clamp u.2 (bounds u.1))) s x s₁ →
        Misses rs cfg x s₁ values s₂ →
        (∃ y s', systemUpdate rs cfg bounds x values s₂ = .ok y s' ∧
          solveSystem rs guess cfg bounds s =
            .error (.iterationLimit cfg.limit (some (Scalar.maxAbs values))) s') ∨
        ∃ e s', systemUpdate rs cfg bounds x values s₂ = .error e s' ∧
          solveSystem rs guess cfg bounds s = .error e s')) := by
  refine ⟨fun x values s₁ J s' _ _ hdamping =>
    (Dwindling.falls (hshorten hdamping)).exists_searchEnds rs bounds x _ _ s', ?_⟩
  have hfuel : cfg.limit.toNat = k + 1 := by omega
  rcases solveSystem_cases rs guess cfg bounds s with h | h | h
  · exact .inl h
  · exact .inr (.inl h)
  · rw [hfuel] at h
    refine .inr (.inr ⟨?_, fun x s₁ values s₂ hreaches hmisses => ?_⟩)
    · rw [h]
      exact exists_endsAt k none _ s
    · -- At the last iterate one more update is computed before the limit is noticed.
      have hlast : solveSystem rs guess cfg bounds s = systemIterate rs cfg bounds 1 none x s₁ :=
        h.trans (hreaches.systemIterate_eq none none)
      rw [hlast, hmisses.systemIterate_eq, bind_apply]
      cases hupdate : systemUpdate rs cfg bounds x values s₂ with
      | ok y s' => exact .inl ⟨y, s', rfl, rfl⟩
      | error e s' => exact .inr ⟨e, s', rfl, rfl⟩

/-! ### The last update -/

/-- One more than the square, which has no root. -/
def squareMore (x : Rat) : Except (Error Rat) Rat := .ok (x * x + 1)

/-- The same function as a system with one equation. -/
def squareMoreSystem : List (Residual String Rat Unit) :=
  [.ofFunction (.position 0) fun x => squareMore (x.headD ("x", 0)).2]

/-- Settings that allow a single iterate. -/
def oneIterate : Config Rat := .ofMargin (mkRat 1 100) 1

/-- The settings of `oneIterate` with updates that are shortened by halves. -/
def oneDamped : Config Rat := { oneIterate with damping := true }

/-- The function `squareMore` has the value `q * q + 1`, which decides whether the margin is
missed. -/
private theorem misses_squareMore {q : Rat}
    (hlarge : ¬Scalar.lt (Scalar.maxAbs [q * q + 1]) oneIterate.margin = true) :
    Misses squareMoreSystem oneIterate [("x", q)] () [q * q + 1] () :=
  ⟨rfl, hlarge⟩

/-- **The last update hides that the limit is exceeded.** The only iterate that is allowed has been
evaluated and `Misses` the margin; but the derivative vanishes there, and this is what is
reported. -/
theorem exists_limit_not_reported :
    Misses squareMoreSystem oneIterate [("x", 0)] () [0 * 0 + 1] () ∧
      solveSystem squareMoreSystem [("x", 0)] oneIterate (fun _ => none) () =
        .error (.singularJacobian .singularZeroValue) () := by
  obtain ⟨_, h⟩ := error?_eq_some_iff.mp (show error? (solveSystem squareMoreSystem [("x", 0)]
    oneIterate (fun _ => none) ()) = some (.singularJacobian .singularZeroValue) by decide +kernel)
  exact ⟨misses_squareMore (by decide +kernel), h⟩

/-- From one the iteration gets an update that it does not need, and only then the limit is
reported; from zero it does not get one, and fails as the update does. With damping every update is
computed in finitely many steps as well, since the lengths are halved. -/
theorem ends_within_limit_squareMore :
    (oneIterate.damping = true → Scalar.lt oneIterate.shorten 1 = true) ∧
      oneIterate.limit = (0 : Nat) + 1 ∧
      solveSystem squareMoreSystem [("x", 1)] oneIterate (fun _ => none) () =
        .error (.iterationLimit 1 (some (Scalar.maxAbs [1 * 1 + 1]))) () ∧
      (∃ e, systemUpdate squareMoreSystem oneIterate (fun _ => none) [("x", 0)] [0 * 0 + 1] () =
          .error e () ∧
        solveSystem squareMoreSystem [("x", 0)] oneIterate (fun _ => none) () = .error e ()) ∧
      Scalar.lt oneDamped.shorten 1 = true ∧
      ∀ x values, Concludes squareMoreSystem oneDamped (fun _ => none) x values () := by
  have hshorten : oneIterate.damping = true → Scalar.lt oneIterate.shorten 1 = true := nofun
  have hlimit : oneIterate.limit = (0 : Nat) + 1 := rfl
  -- The settings are accepted, so the update at the guess decides.
  have haccepted (q : Rat) :=
    ((ends_within_limit squareMoreSystem [("x", q)] (fun _ => none) hshorten hlimit
      ()).2.resolve_left fun h => absurd h.1 (by decide)).resolve_left fun h => h.1 rfl
  have hlast (q : Rat) (hlarge : ¬Scalar.lt (Scalar.maxAbs [q * q + 1]) oneIterate.margin = true) :=
    (haccepted q).2 [("x", q)] () _ () (.refl _ _) (misses_squareMore hlarge)
  have hupdated : succeeded (systemUpdate squareMoreSystem oneIterate (fun _ => none) [("x", 1)]
      [1 * 1 + 1] ()) = true := by decide +kernel
  have hstuck : succeeded (systemUpdate squareMoreSystem oneIterate (fun _ => none) [("x", 0)]
      [0 * 0 + 1] ()) = false := by decide +kernel
  have hhalf : Scalar.lt oneDamped.shorten 1 = true := by decide +kernel
  have hone : oneDamped.limit = (0 : Nat) + 1 := rfl
  have hconcludes := (ends_within_limit squareMoreSystem [("x", 1)] (fun _ => none) (fun _ => hhalf)
    hone ()).1
  refine ⟨hshorten, hlimit, ?_, ?_, hhalf, fun x values => hconcludes x values ()⟩
  · rcases hlast 1 (by decide +kernel) with ⟨_, _, _, hsolve⟩ | ⟨e, s', hupdate, _⟩
    · exact hsolve
    · rw [hupdate] at hupdated
      cases hupdated
  · rcases hlast 0 (by decide +kernel) with ⟨y, s', hupdate, _⟩ | ⟨e, _, hboth⟩
    · rw [hupdate] at hstuck
      cases hstuck
    · exact ⟨e, hboth⟩

end FluxBalance.Newton
