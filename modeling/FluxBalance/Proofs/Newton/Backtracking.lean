import Mathlib.Order.Bounds.Basic
import FluxBalance.Proofs.Newton.Orders

/-!
# The search for the length of an update

A damped iteration tries the lengths one, `c`, `c ^ 2` and so on, where `c` is the factor by which
an update is shortened, until the residuals at a trial point have become smaller. A trial at which
an equation has no value counts as one at which they have not. The lengths fall below every bound if
`c` lies between zero and one, so the search comes to an end: it has met a length that is good
enough, which is the largest of those, or it has arrived at the shortest length, which is taken
without a trial.

Trials may change the state of the residuals, so what a trial finds depends on the trials before it.
`LineSearch.stateBefore?` follows the states from one trial to the next. Only errors of an
evaluation are passed over. By design every other error of a residual is let through, and then there
is no next point.

## Main definitions and results

* `LineSearch`: a search, with its `length` and its `trial` of each number;
* `Accepts`, `goodLengths`: the lengths that are good enough;
* `Ends`, `exists_ends`: how a search ends, and that it does;
* `damped_search_ends`: what this says of every damped iteration.
-/

namespace FluxBalance.Newton

open FluxBalance.Computation

/-! ### Lengths and trials -/

/-- A search for the length of an update: the point and its update, the largest residual at the
point, and the state in which the trials begin. -/
structure LineSearch (ν α σ : Type) where
  /-- The `residuals` that are to become smaller. -/
  residuals : List (Residual ν α σ)
  /-- The settings of the iteration. -/
  cfg : Config α
  /-- The intervals of the unknowns. -/
  bounds : Bounds ν α
  /-- The point from which the update leads away. -/
  point : Assignment ν α
  /-- The update, in full length. -/
  update : List α
  /-- The largest residual at the point. -/
  worst : α
  /-- The state before the first trial. -/
  start : σ

namespace LineSearch

section

variable {ν α σ : Type} [Scalar α] (l : LineSearch ν α σ)

/-- The clamped step of a length. -/
def step (a : α) : Assignment ν α := moveBy l.bounds l.point l.update a

variable [Scalar.Exact α]

/-- The length of the trial with the given number, counted from zero. -/
def length (k : Nat) : α := l.cfg.shorten ^ k

/-- The values of the `residuals` at a trial point. -/
def trial (k : Nat) : EStateM (Error α) σ (List α) := evaluateAll (l.step (l.length k)) l.residuals

/-- The state before a trial, which the trials before it have left one after the other. There is
none if the error of one of them is let through. -/
def stateBefore? : Nat → Option σ
  | 0 => some l.start
  | k + 1 => (stateBefore? k).bind fun s =>
    match l.trial k s with
    | .ok _ s' => some s'
    | .error (.evaluation ..) s' => some s'
    | .error _ _ => none

/-- All residuals have values at the trial point, and the largest of them is below the required
part of the one at the point. The trial leaves the given state. -/
def Accepts (k : Nat) (s' : σ) : Prop :=
  ∃ s values, l.stateBefore? k = some s ∧ l.trial k s = .ok values s' ∧
    Scalar.maxAbs values < l.cfg.decrease * l.worst

/-- The lengths above the shortest one whose trials are good enough. -/
def goodLengths : Set α := {a | ∃ k s', l.length k = a ∧ shortestLength < a ∧ l.Accepts k s'}

/-- How a search ends, after a number of trials. -/
inductive Ends : Nat → EStateM.Result (Error α) σ (Assignment ν α) → Prop
  /-- The last trial is good enough, and no greater length is. -/
  | accepted {k : Nat} {s' : σ} : IsGreatest l.goodLengths (l.length k) → l.Accepts k s' →
    Ends (k + 1) (.ok (l.step (l.length k)) s')
  /-- No length is good enough; all that are above the shortest one have been tried. -/
  | exhausted {k : Nat} {s' : σ} : l.goodLengths = ∅ → l.length k ≤ shortestLength →
    (∀ j < k, shortestLength < l.length j) → l.stateBefore? k = some s' →
    Ends k (.ok (l.step shortestLength) s')
  /-- No length is good enough so far, and the last trial fails with an error that is not one of
  an evaluation. -/
  | failed {k : Nat} {s s' : σ} {e : Error α} : (∀ j < k, ∀ s', ¬l.Accepts j s') →
    shortestLength < l.length k → l.stateBefore? k = some s → l.trial k s = .error e s' →
    (∀ name cause, e ≠ .evaluation name cause) → Ends (k + 1) (.error e s')

variable {l}

private theorem length_zero : l.length 0 = 1 := pow_zero _

private theorem length_succ (k : Nat) :
    l.length (k + 1) = l.length k * l.cfg.shorten := pow_succ _ _

/-- Lengths fall from trial to trial. -/
private theorem length_antitone (hpos : 0 < l.cfg.shorten) (hlt : l.cfg.shorten < 1) :
    Antitone l.length :=
  fun _ _ h => pow_le_pow_of_le_one hpos.le hlt.le h

/-- What the search makes of a trial. -/
private theorem trialResidual_step (k : Nat) (s : σ) :
    trialResidual l.residuals (l.step (l.length k)) s =
      match l.trial k s with
      | .ok values s' => .ok (some (Scalar.maxAbs values)) s'
      | .error (.evaluation ..) s' => .ok none s'
      | .error e s' => .error e s' := rfl

/-- What a trial that is not good enough leaves for the next one. -/
private theorem stateBefore?_succ {k : Nat} {s : σ} (hs : l.stateBefore? k = some s) :
    l.stateBefore? (k + 1) =
      match l.trial k s with
      | .ok _ s' => some s'
      | .error (.evaluation ..) s' => some s'
      | .error _ _ => none := by
  rw [stateBefore?, hs]
  rfl

/-- A length is accepted exactly if all residuals of its trial evaluate and the largest is below
the target. -/
theorem accepts_iff {k : Nat} {s s' : σ} (hs : l.stateBefore? k = some s) :
    l.Accepts k s' ↔ ∃ values, l.trial k s = .ok values s' ∧
      Scalar.maxAbs values < l.cfg.decrease * l.worst := by
  constructor
  · rintro ⟨s₁, values, hs₁, h⟩
    obtain rfl : s₁ = s := Option.some.inj (hs₁.symm.trans hs)
    exact ⟨values, h⟩
  · rintro ⟨values, h⟩
    exact ⟨s, values, hs, h⟩

/-- The first length that is good enough is the greatest one. -/
private theorem isGreatest_goodLengths (hpos : 0 < l.cfg.shorten) (hlt : l.cfg.shorten < 1)
    {k : Nat} {s' : σ} (hbefore : ∀ j < k, ∀ s', ¬l.Accepts j s')
    (hlong : shortestLength < l.length k)
    (haccepts : l.Accepts k s') : IsGreatest l.goodLengths (l.length k) := by
  refine ⟨⟨k, s', rfl, hlong, haccepts⟩, ?_⟩
  rintro _ ⟨j, s₁, rfl, -, hj⟩
  have hkj : k ≤ j := not_lt.mp fun h => hbefore j h s₁ hj
  exact length_antitone hpos hlt hkj

/-- Once the lengths have arrived at the shortest one, there is none that is good enough. -/
private theorem goodLengths_eq_empty (hpos : 0 < l.cfg.shorten) (hlt : l.cfg.shorten < 1) {k : Nat}
    (hbefore : ∀ j < k, ∀ s', ¬l.Accepts j s') (hshort : l.length k ≤ shortestLength) :
    l.goodLengths = ∅ := by
  refine Set.eq_empty_iff_forall_notMem.mpr ?_
  rintro _ ⟨j, s', rfl, hlong, hj⟩
  have hkj : k ≤ j := not_lt.mp fun h => hbefore j h s' hj
  exact absurd ((length_antitone hpos hlt hkj).trans hshort) (not_le.mpr hlong)

/-! ### The run of a search -/

/-- The search ends with the given result if it goes on from the trial with the given number, in the
state before this trial. -/
def EndsFrom (l : LineSearch ν α σ) (k : Nat) (s : σ)
    (r : EStateM.Result (Error α) σ (Assignment ν α)) : Prop :=
  SearchEnds l.residuals l.bounds l.point l.update (l.cfg.decrease * l.worst) l.cfg.shorten
    (l.length k) s r

/-- Above the shortest length the search makes a trial: it takes the length, it passes over the
trial, or it lets an error through. -/
private theorem endsFrom_cases {k : Nat} {s : σ} (hs : l.stateBefore? k = some s)
    (hlong : shortestLength < l.length k) :
    (∃ s', l.Accepts k s' ∧ l.EndsFrom k s (.ok (l.step (l.length k)) s')) ∨
    (∃ s', (∀ s', ¬l.Accepts k s') ∧ l.stateBefore? (k + 1) = some s' ∧
      ∀ r, l.EndsFrom (k + 1) s' r → l.EndsFrom k s r) ∨
    ∃ e s', l.trial k s = .error e s' ∧ (∀ name cause, e ≠ .evaluation name cause) ∧
      l.EndsFrom k s (.error e s') := by
  have hlong : Scalar.lt shortestLength (l.length k) = true :=
    Scalar.Exact.lt_eq_true_iff.mpr hlong
  have hnext := stateBefore?_succ hs
  have hresidual := trialResidual_step (l := l) k s
  simp only [accepts_iff hs, EndsFrom, length_succ]
  cases htrial : l.trial k s with
  | ok values s' =>
    rw [htrial] at hnext hresidual
    by_cases hsmall : Scalar.maxAbs values < l.cfg.decrease * l.worst
    · exact .inl ⟨s', ⟨values, rfl, hsmall⟩,
        .accepted hlong hresidual (Scalar.Exact.lt_eq_true_iff.mpr hsmall)⟩
    · refine .inr (.inl ⟨s', ?_, hnext, fun r hr => .passedOver hlong hresidual
        (mt Scalar.Exact.lt_eq_true_iff.mp hsmall) hr⟩)
      rintro _ ⟨_, ⟨⟩, hsmall'⟩
      exact hsmall hsmall'
  | error e s' =>
    rw [htrial] at hnext hresidual
    by_cases he : ∃ name cause, e = .evaluation name cause
    · obtain ⟨name, cause, rfl⟩ := he
      exact .inr (.inl ⟨s', by rintro _ ⟨_, ⟨⟩, -⟩, hnext,
        fun r hr => .passedOver hlong hresidual Bool.false_ne_true hr⟩)
    · -- What is not an error of an evaluation is not passed over.
      have hother : ∀ name cause, e ≠ .evaluation name cause :=
        fun name cause h => he ⟨name, cause, h⟩
      refine .inr (.inr ⟨e, s', rfl, hother, .failed hlong ?_⟩)
      rw [← step, hresidual]
      cases e with
      | evaluation name cause => exact absurd rfl (hother name cause)
      | _ => rfl

/-- At the shortest length the search takes it. -/
private theorem endsFrom_of_short {k : Nat} (hshort : l.length k ≤ shortestLength) (s : σ) :
    l.EndsFrom k s (.ok (l.step shortestLength) s) :=
  .exhausted (mt Scalar.Exact.lt_eq_true_iff.mp (not_lt.mpr hshort)) (le_eq_true_iff.mpr hshort)

/-- **A search ends** once its lengths fall to the shortest one. It has then made as many trials as
it needed. -/
theorem exists_ends (hpos : 0 < l.cfg.shorten) (hlt : l.cfg.shorten < 1) :
    ∀ (n k : Nat) {s : σ}, l.stateBefore? k = some s → (∀ j < k, shortestLength < l.length j) →
      (∀ j < k, ∀ s', ¬l.Accepts j s') → l.length (k + n) ≤ shortestLength →
      ∃ trials ≤ k + n, ∃ r, l.Ends trials r ∧ l.EndsFrom k s r := by
  -- The induction is on the lengths that are left; `k` of them have been tried in vain.
  intro n
  induction n with
  | zero =>
    intro k s hs hlong hbefore hshort
    rw [Nat.add_zero] at hshort ⊢
    exact ⟨k, le_rfl, _,
      .exhausted (goodLengths_eq_empty hpos hlt hbefore hshort) hshort hlong hs,
      endsFrom_of_short hshort s⟩
  | succ n ih =>
    intro k s hs hlong hbefore hfalls
    rcases le_or_gt (l.length k) shortestLength with hshort | hk
    · exact ⟨k, Nat.le_add_right k _, _,
        .exhausted (goodLengths_eq_empty hpos hlt hbefore hshort) hshort hlong hs,
        endsFrom_of_short hshort s⟩
    rcases endsFrom_cases hs hk with ⟨s', haccepts, hends⟩ | ⟨s', hnot, hs', hnext⟩ |
      ⟨e, s', htrial, hother, hends⟩
    · exact ⟨k + 1, by omega, _,
        .accepted (isGreatest_goodLengths hpos hlt hbefore hk haccepts) haccepts, hends⟩
    · obtain ⟨trials, htrials, r, hr, hends⟩ := ih (k + 1) hs'
        (Nat.forall_lt_succ_right.mpr ⟨hlong, hk⟩)
        (Nat.forall_lt_succ_right.mpr ⟨hbefore, hnot⟩) (by rwa [Nat.succ_add_eq_add_succ])
      exact ⟨trials, by omega, r, hr, hnext r hends⟩
    · exact ⟨k + 1, by omega, _, .failed hbefore hk hs htrial hother, hends⟩

end

end LineSearch

/-! ### Damped iterations -/

section

variable {ν α σ : Type} [Scalar α]

/-- The search of an iteration at a point where the residuals have these values and the Jacobian is
known. -/
def LineSearch.ofJacobian (rs : List (Residual ν α σ)) (cfg : Config α) (bounds : Bounds ν α)
    (x : Assignment ν α) (values : List α) (J : DenseMatrix α) (s : σ) : LineSearch ν α σ where
  residuals := rs
  cfg := cfg
  bounds := bounds
  point := x
  update := newtonUpdate J.invertSquare.2 values
  worst := Scalar.maxAbs values
  start := s

/-- **The search of every damped iteration ends**, within a number of trials that the factor of the
lengths determines. At each iterate that is allowed and has an invertible Jacobian, the next iterate
is the clamped step of the greatest length that is good enough, or, if there is none, of the
shortest one. The one exception is a trial that fails with an error that is not one of an
evaluation: there is no next iterate then, and the call fails with this error. -/
theorem damped_search_ends [Scalar.Rational α] {rs : List (Residual ν α σ)}
    {guess x : Assignment ν α} {cfg : Config α} {bounds : Bounds ν α} {values : List α}
    {J : DenseMatrix α} {j n : Nat} {s s₁ s₂ s₃ : σ} (hdamping : cfg.damping = true)
    (hpos : Scalar.lt 0 cfg.shorten = true) (hlt : Scalar.lt cfg.shorten 1 = true)
    (hmargin : Scalar.lt 0 cfg.margin = true) (hlen : rs.length = guess.length)
    (hlimit : cfg.limit = j + (n + 1))
    (hreaches : Reaches rs cfg bounds j (guess.map fun u => (u.1, clamp u.2 (bounds u.1))) s x s₁)
    (hmisses : Misses rs cfg x s₁ values s₂) (hJ : jacobian rs cfg.step x s₂ = .ok J s₃)
    (hsuccess : J.invertSquare.1 = .success) :
    ∃ trials ≤ searchSteps cfg.shorten,
      (LineSearch.ofJacobian rs cfg bounds x values J s₃).Ends trials
        (systemUpdate rs cfg bounds x values s₂) ∧
      solveSystem rs guess cfg bounds s = (systemUpdate rs cfg bounds x values >>=
        systemIterate rs cfg bounds n (some (Scalar.maxAbs values))) s₂ := by
  have hfuel : cfg.limit.toNat = j + (n + 1) := by omega
  obtain ⟨trials, htrials, r, hr, hends⟩ := LineSearch.exists_ends
    (l := LineSearch.ofJacobian rs cfg bounds x values J s₃) hpos hlt (searchSteps cfg.shorten) 0
    rfl nofun nofun (by rw [Nat.zero_add]; exact pow_searchSteps_le hpos hlt)
  rw [Nat.zero_add] at htrials
  refine ⟨trials, htrials, ?_, ?_⟩
  · rw [systemUpdate_of_jacobian cfg bounds hJ hsuccess, if_pos hdamping]
    rw [LineSearch.EndsFrom, LineSearch.length_zero] at hends
    have hsearch : search rs cfg bounds x (newtonUpdate J.invertSquare.2 values)
        (Scalar.maxAbs values) s₃ = r := hends.search_eq
    rwa [hsearch]
  · rw [solveSystem_eq_systemIterate hmargin hlen s, hfuel, hreaches.systemIterate_eq none none,
      hmisses.systemIterate_eq]

end

/-! ### A trial beyond the domain -/

/-- One less than the square. Below minus two it fails with the given error. -/
def squareAbove (e : Error Rat) (q : Rat) : Except (Error Rat) Rat :=
  if q < -2 then .error e else .ok (q * q - 1)

/-- The same function as a system with one equation. -/
def squareAboveSystem (e : Error Rat) : List (Residual String Rat Unit) :=
  [.ofFunction (.text "f") fun x => squareAbove e (x.headD ("x", 0)).2]

/-- From here a full step leads below minus two, and half of it does not. -/
def nearZero : Assignment String Rat := [("x", mkRat (-1) 4)]

/-- What the function is there. -/
def valuesNearZero : List Rat := [mkRat (-1) 4 * mkRat (-1) 4 - 1]

private theorem misses_nearZero (e : Error Rat) :
    Misses (squareAboveSystem e) coarseConfig nearZero () valuesNearZero () := by
  refine ⟨?_, by decide +kernel⟩
  have hvalue : squareAbove e (nearZero.headD ("x", 0)).2 =
      .ok (mkRat (-1) 4 * mkRat (-1) 4 - 1) := if_neg (by decide +kernel)
  simp only [squareAboveSystem, evaluateAll, bind_apply, Residual.evaluate, Residual.ofFunction,
    hvalue]
  rfl

/-- There is an invertible Jacobian if an iteration without damping goes on. -/
private theorem exists_jacobian_of_undamped {ν α σ : Type} [Scalar α] {rs : List (Residual ν α σ)}
    {cfg : Config α} {bounds : Bounds ν α} {x y : Assignment ν α} {values : List α} {s s' : σ}
    (h : systemUpdate rs { cfg with damping := false } bounds x values s = .ok y s') :
    ∃ J s₁, jacobian rs cfg.step x s = .ok J s₁ ∧ J.invertSquare.1 = .success := by
  obtain ⟨J, s₁, hJ, hrest⟩ := bind_eq_ok.mp h
  exact ⟨J, s₁, hJ, not_not.mp (guard_eq_ok.mp hrest).1⟩

/-- **A search may have no next iterate**: if at the full step the function fails with an error
that is not one of arithmetic, this error is let through, although half of the step would be good
enough. -/
theorem exists_trial_let_through :
    ¬ ∀ (rs : List (Residual String Rat Unit)) (cfg : Config Rat) (bounds : Bounds String Rat)
      (x : Assignment String Rat) (values : List Rat) (J : DenseMatrix Rat), cfg.damping = true →
      Scalar.lt 0 cfg.shorten = true → Scalar.lt cfg.shorten 1 = true →
      Misses rs cfg x () values () → jacobian rs cfg.step x () = .ok J () →
      J.invertSquare.1 = .success →
        ∃ a, systemUpdate rs cfg bounds x values () =
            .ok ((LineSearch.ofJacobian rs cfg bounds x values J ()).step a) () ∧
          (IsGreatest (LineSearch.ofJacobian rs cfg bounds x values J ()).goodLengths a ∨
            (LineSearch.ofJacobian rs cfg bounds x values J ()).goodLengths = ∅ ∧
              a = shortestLength) := by
  intro hall
  have hundamped : succeeded (systemUpdate (squareAboveSystem (.fault .unknownKey))
      { coarseConfig with damping := false } (fun _ => none) nearZero valuesNearZero ()) =
      true := by decide +kernel
  have hdamped : succeeded (systemUpdate (squareAboveSystem (.fault .unknownKey)) coarseConfig
      (fun _ => none) nearZero valuesNearZero ()) = false := by
    rw [systemUpdate_eq_within 1 (by decide +kernel)]
    decide +kernel
  obtain ⟨_, _, hnext⟩ := succeeded_eq_true_iff.mp hundamped
  obtain ⟨J, _, hJ, hsuccess⟩ := exists_jacobian_of_undamped hnext
  obtain ⟨a, hstep, -⟩ := hall _ coarseConfig _ _ _ J rfl (by decide +kernel) (by decide +kernel)
    (misses_nearZero _) hJ hsuccess
  rw [hstep] at hdamped
  cases hdamped

/-- The system that is undefined below minus two. -/
def undefinedSystem : List (Residual String Rat Unit) := squareAboveSystem (.fault .badValue)

/-- If the function fails with an error of arithmetic there, the trial is passed over, and the call
goes on from another point and converges. -/
theorem damped_search_ends_nearZero :
    ∃ J, jacobian undefinedSystem coarseConfig.step nearZero () = .ok J () ∧
      J.invertSquare.1 = .success ∧
      ∃ trials ≤ searchSteps coarseConfig.shorten,
        (LineSearch.ofJacobian undefinedSystem coarseConfig (fun _ => none) nearZero valuesNearZero
          J ()).Ends trials
          (systemUpdate undefinedSystem coarseConfig (fun _ => none) nearZero valuesNearZero ()) ∧
        solveSystem undefinedSystem nearZero coarseConfig (fun _ => none) () =
          (systemUpdate undefinedSystem coarseConfig (fun _ => none) nearZero valuesNearZero >>=
            systemIterate undefinedSystem coarseConfig (fun _ => none) 49
              (some (Scalar.maxAbs valuesNearZero))) () ∧
        succeeded (solveSystem undefinedSystem nearZero coarseConfig (fun _ => none) ()) =
          true := by
  have hundamped : succeeded (systemUpdate undefinedSystem { coarseConfig with damping := false }
      (fun _ => none) nearZero valuesNearZero ()) = true := by decide +kernel
  obtain ⟨_, _, hnext⟩ := succeeded_eq_true_iff.mp hundamped
  obtain ⟨J, _, hJ, hsuccess⟩ := exists_jacobian_of_undamped hnext
  have hreaches : Reaches undefinedSystem coarseConfig (fun _ => none) 0
      (nearZero.map fun u => (u.1, clamp u.2 none)) () nearZero () := .refl nearZero ()
  obtain ⟨trials, htrials, hends, hsolve⟩ := damped_search_ends (n := 49) rfl (by decide +kernel)
    (by decide +kernel) (by decide +kernel) rfl rfl hreaches (misses_nearZero _) hJ hsuccess
  have hsolved : succeeded (solveSystem undefinedSystem nearZero coarseConfig (fun _ => none) ()) =
      true := by
    rw [solveSystem_eq_within 2 (by decide +kernel)]
    decide +kernel
  exact ⟨J, hJ, hsuccess, trials, htrials, hends, hsolve, hsolved⟩

end FluxBalance.Newton
