import FluxBalance.Proofs.Newton.Directions
import FluxBalance.Proofs.Newton.Limit

/-!
# Orders of equations and unknowns

To list equations in another order is to exchange rows of the Jacobian, and to list unknowns in
another order is to exchange its columns; elimination then meets other pivots. But what it computes
is the one direction that `Corrects` all functions, and this does not depend on any order. So two
iterations that start from the same values visit the same points, step by step.

What depends on the order is which failure comes first. Where an equation fails with an error of
arithmetic, a search for the length of an update passes over the trial point; any other error is let
through. If one equation fails in the one way and another one in the other way, the equation that is
listed first decides. Outside of a search every failure ends the iteration, so an iteration that
returns has not met any there.

## Main definitions and results

* `Tried`, `Disputed`: what a search finds at a trial point, and where this depends on the order;
* `follows_systemUpdate`: an update in another order leads to the same point, or an error is
  `Disputed`;
* `same_in_every_order`, `exists_order_that_fails`: the orders do not matter, apart from such
  errors.
-/

namespace FluxBalance.Newton

open FluxBalance.Computation

variable {ν α σ : Type} [DecidableEq ν] [Scalar α] [Scalar.Exact α]
  {fs fs' : List (EquationName × NamedFunction ν α)} {x x' : Assignment ν α} {s s' : σ}

/-! ### Trial points -/

/-- At values by name, one function fails with an error of arithmetic, and another one with the
given error, which is none. -/
structure Disputed (gs : List (NamedFunction ν α)) (m : ν → Option α) (e : Error α) : Prop where
  arithmetic : ∃ f ∈ gs, ∃ cause, f m = .error cause ∧ cause.isArithmetic = true
  other : ∃ f ∈ gs, f m = .error e
  not_arithmetic : e.isArithmetic = false

/-- The functions have values, or the first failure counts: it is called by the name of its equation
if it is one of arithmetic. -/
private theorem evaluateAll_named_cases (x : Assignment ν α) (s : σ) :
    ∀ fs : List (EquationName × NamedFunction ν α),
      (∃ values, List.Forall₂ (fun f y => f (byName x) = .ok y) (fs.map Prod.snd) values) ∨
      ∃ f ∈ fs, ∃ cause, f.2 (byName x) = .error cause ∧ evaluateAll x (namedResiduals fs) s =
        .error (if cause.isArithmetic then .evaluation f.1 cause else cause) s
  | [] => .inl ⟨[], .nil⟩
  | f :: fs => by
    cases hf : f.2 (byName x) with
    | error cause =>
      refine .inr ⟨f, List.mem_cons_self, cause, hf, bind_eq_error.mpr (.inl ?_)⟩
      have hvalue : (Residual.ofFunction f.1 fun x => f.2 (byName x)).value x s =
          .error cause s := by
        change (lift (f.2 (byName x)) : EStateM (Error α) σ α) s = .error cause s
        rw [hf]
        rfl
      simp only [Residual.evaluate, hvalue]
      split <;> rfl
    | ok y =>
      rcases evaluateAll_named_cases x s fs with ⟨values, hvalues⟩ | ⟨g, hg, cause, hcause, herror⟩
      · exact .inl ⟨y :: values, .cons hf hvalues⟩
      · refine .inr ⟨g, List.mem_cons_of_mem f hg, cause, hcause, ?_⟩
        have hy : (Residual.ofFunction f.1 fun x => f.2 (byName x)).evaluate x s = .ok y s :=
          evaluate_eq_ok_iff.mpr ⟨lift_eq_ok_iff.mpr ⟨hf, rfl⟩, Scalar.Exact.isFinite_eq y⟩
        exact bind_eq_error.mpr (.inr ⟨y, s, hy, bind_eq_error.mpr (.inl herror)⟩)

/-- What a search finds at a trial point. -/
inductive Tried (fs : List (EquationName × NamedFunction ν α)) (x : Assignment ν α) (s : σ) :
    EStateM.Result (Error α) σ (Option α) → Prop
  /-- The functions have values. -/
  | values {values : List α} :
    List.Forall₂ (fun f y => f (byName x) = .ok y) (fs.map Prod.snd) values →
    Tried fs x s (.ok (some (Scalar.maxAbs values)) s)
  /-- The first failure is one of arithmetic. -/
  | none {f : NamedFunction ν α} {cause : Error α} : f ∈ fs.map Prod.snd →
    f (byName x) = .error cause → cause.isArithmetic = true → Tried fs x s (.ok none s)
  /-- The first failure is another one. -/
  | failed {f : NamedFunction ν α} {e : Error α} : f ∈ fs.map Prod.snd →
    f (byName x) = .error e → e.isArithmetic = false → Tried fs x s (.error e s)

/-- What `trialResidual` makes of functions of the unknowns is one of the cases of `Tried`. -/
private theorem tried (fs : List (EquationName × NamedFunction ν α)) (x : Assignment ν α) (s : σ) :
    Tried fs x s (trialResidual (namedResiduals fs) x s) := by
  unfold trialResidual
  rcases evaluateAll_named_cases x s fs with ⟨values, hvalues⟩ | ⟨f, hf, cause, hcause, herror⟩
  · rw [evaluateAll_named_eq_ok_iff.mpr ⟨hvalues, rfl⟩]
    exact .values hvalues
  · have hmem : f.2 ∈ fs.map Prod.snd := List.mem_map_of_mem hf
    rw [herror]
    cases harithmetic : cause.isArithmetic with
    | true => exact .none hmem hcause harithmetic
    | false =>
      have hfailed := Tried.failed (s := s) hmem hcause harithmetic
      cases cause with
      | evaluation name cause => cases harithmetic
      | _ => exact hfailed

omit [DecidableEq ν] [Scalar α] [Scalar.Exact α] in
/-- Where all functions have values, none fails. -/
private theorem ne_error_of_values {gs : List (NamedFunction ν α)} {m : ν → Option α}
    {values : List α} (h : List.Forall₂ (fun f y => f m = .ok y) gs values) {f : NamedFunction ν α}
    (hf : f ∈ gs)
    {e : Error α} : f m ≠ .error e := by
  obtain ⟨i, hi⟩ := List.mem_iff_getElem?.mp hf
  obtain ⟨y, -, hy⟩ := exists_getElem?_of_forall₂ h hi
  rw [hy]
  exact nofun

section

variable {gs gs' : List (NamedFunction ν α)} (hgs : gs.Perm gs') {m : ν → Option α}
  {values values' : List α} (h : List.Forall₂ (fun f y => f m = .ok y) gs values)

include hgs h

omit [DecidableEq ν] [Scalar α] [Scalar.Exact α] in
/-- In every order the functions have the same values. -/
private theorem exists_values_of_perm :
    ∃ values', List.Forall₂ (fun f y => f m = .ok y) gs' values' ∧ values'.Perm values :=
  List.perm_comp_forall₂ hgs.symm h

omit [DecidableEq ν] in
/-- The largest residual does not depend on the order of the equations. -/
private theorem maxAbs_eq_of_values (h' : List.Forall₂ (fun f y => f m = .ok y) gs' values') :
    Scalar.maxAbs values = Scalar.maxAbs values' := by
  obtain ⟨values₂, hvalues₂, hperm⟩ := exists_values_of_perm hgs h
  have hunique : Relator.RightUnique fun (f : NamedFunction ν α) y => f m = .ok y :=
    fun _ _ _ hb hc => Except.ok.inj (hb.symm.trans hc)
  rw [List.right_unique_forall₂' hunique h' hvalues₂, Scalar.Exact.maxAbs_eq_of_perm hperm]

end

section

variable (hfs : (fs.map Prod.snd).Perm (fs'.map Prod.snd)) (hdistinct : Distinct x)
  (hx : x.Perm x')

include hfs hdistinct hx

/-- At a trial point the same is found in every order, unless the failure of one equation is passed
over and that of another one is not. -/
private theorem follows_trialResidual :
    Follows Eq (Disputed (fs.map Prod.snd) (byName x))
      (trialResidual (σ := σ) (namedResiduals fs) x) (trialResidual (namedResiduals fs') x') := by
  intro s b s' hb
  have hm : byName x' = byName x := (byName_eq_of_perm hdistinct hx).symm
  have htried := tried fs x s
  have htried' := tried fs' x' s
  rw [hb] at htried
  generalize trialResidual (namedResiduals fs') x' s = r at htried' ⊢
  cases htried with
  | values hvalues =>
    cases htried' with
    | values hvalues' =>
      exact .inl ⟨_, rfl, congrArg some (maxAbs_eq_of_values hfs hvalues (hm ▸ hvalues'))⟩
    | none hf herror =>
      exact absurd (hm ▸ herror) (ne_error_of_values hvalues (hfs.mem_iff.mpr hf))
    | failed hf herror =>
      exact absurd (hm ▸ herror) (ne_error_of_values hvalues (hfs.mem_iff.mpr hf))
  | none hf herror harithmetic =>
    cases htried' with
    | values hvalues' =>
      exact absurd (hm ▸ herror) (ne_error_of_values hvalues' (hfs.mem_iff.mp hf))
    | none => exact .inl ⟨none, rfl, rfl⟩
    | failed hg herror' hother =>
      exact .inr ⟨_, _, rfl, ⟨_, hf, _, herror, harithmetic⟩,
        ⟨_, hfs.mem_iff.mpr hg, hm ▸ herror'⟩, hother⟩

end

/-! ### Searches -/

omit [DecidableEq ν] [Scalar.Exact α] in
private theorem moveBy_map (bounds : Bounds ν α) (d : ν × α → α) (length : α) :
    ∀ x : Assignment ν α, moveBy bounds x (x.map d) length =
      x.map fun u => (u.1, clamp (u.2 + length * d u) (bounds u.1))
  | [] => rfl
  | _ :: x => congrArg (_ :: ·) (moveBy_map bounds d length x)

omit [DecidableEq ν] [Scalar.Exact α] in
/-- The order of the unknowns passes through `moveBy`. -/
private theorem perm_moveBy (hx : x.Perm x') (bounds : Bounds ν α) (d : ν × α → α) (length : α) :
    (moveBy bounds x (x.map d) length).Perm (moveBy bounds x' (x'.map d) length) := by
  rw [moveBy_map, moveBy_map]
  exact hx.map _

/-- A search from the point may fail with this error, because the functions are disputed some way
along the direction that corrects them. -/
def FailsAtTrial (gs : List (NamedFunction ν α)) (step : α) (bounds : Bounds ν α)
    (x : Assignment ν α) (e : Error α) : Prop :=
  ∃ D d length, Slopes gs step x D ∧ Corrects gs x D d ∧
    Disputed gs (byName (moveBy bounds x (x.map d) length)) e

section

variable (hfs : (fs.map Prod.snd).Perm (fs'.map Prod.snd)) (hdistinct : Distinct x)
  (hx : x.Perm x') (cfg : Config α) (bounds : Bounds ν α)

include hfs hdistinct hx

/-- If a search ends at a point, the search in another order ends at the same one, or it is failed
by a trial at a `Disputed` point. -/
private theorem SearchEnds.follows {d : ν × α → α} {target shorten length : α} {s s' : σ}
    {y : Assignment ν α} (hends : SearchEnds (namedResiduals fs) bounds x (x.map d) target shorten
      length s (.ok y s')) :
    (∃ y', SearchEnds (namedResiduals fs') bounds x' (x'.map d) target shorten length s
      (.ok y' s') ∧ y.Perm y') ∨
    ∃ e s'', SearchEnds (namedResiduals fs') bounds x' (x'.map d) target shorten length s
        (.error e s'') ∧
      ∃ length, Disputed (fs.map Prod.snd) (byName (moveBy bounds x (x.map d) length)) e := by
  have hperm (length : α) := perm_moveBy hx bounds d length
  have hkeys (length : α) : Distinct (moveBy bounds x (x.map d) length) := by
    rw [Distinct, keys_moveBy (List.length_map d)]
    exact hdistinct
  have htrials (length : α) := follows_trialResidual (σ := σ) hfs (hkeys length) (hperm length)
  generalize hr : EStateM.Result.ok y s' = r at hends
  -- The trials of the other order find the same, until one of them is disputed.
  induction hends with
  | accepted hlong htrial hsmall =>
    cases hr
    rcases htrials _ _ _ _ htrial with ⟨_, htrial', rfl⟩ | ⟨e, s'', htrial', he⟩
    · exact .inl ⟨_, .accepted hlong htrial' hsmall, hperm _⟩
    · exact .inr ⟨e, s'', .failed hlong htrial', _, he⟩
  | passedOver hlong htrial hlarge _ ih =>
    rcases htrials _ _ _ _ htrial with ⟨_, htrial', rfl⟩ | ⟨e, s'', htrial', he⟩
    · rcases ih hr with ⟨y', hends', hsame⟩ | ⟨e, s'', hends', he⟩
      · exact .inl ⟨y', .passedOver hlong htrial' hlarge hends', hsame⟩
      · exact .inr ⟨e, s'', .passedOver hlong htrial' hlarge hends', he⟩
    · exact .inr ⟨e, s'', .failed hlong htrial', _, he⟩
  | failed => cases hr
  | exhausted hshort hle =>
    cases hr
    exact .inl ⟨_, .exhausted hshort hle, hperm _⟩
  | undefined hshort hle =>
    cases hr
    exact .inl ⟨_, .undefined hshort hle, hx⟩

/-- In another order `search` finds the same point, or it lets out an error that is `Disputed` at a
trial. -/
private theorem follows_search (d : ν × α → α) (worst : α) :
    Follows List.Perm
      (fun e => ∃ length, Disputed (fs.map Prod.snd) (byName (moveBy bounds x (x.map d) length)) e)
      (search (σ := σ) (namedResiduals fs) cfg bounds x (x.map d) worst)
      (search (namedResiduals fs') cfg bounds x' (x'.map d) worst) := by
  intro s y s' hy
  rcases (searchEnds_of_search_eq_ok hy).follows hfs hdistinct hx with
    ⟨y', hends', hsame⟩ | ⟨e, s'', hends', he⟩
  · exact .inl ⟨y', hends'.search_eq, hsame⟩
  · exact .inr ⟨e, s'', hends'.search_eq, he⟩

end

/-! ### Updates -/

omit [DecidableEq ν] [Scalar.Exact α] in
/-- How an update goes on once the Jacobian is inverted. -/
theorem systemUpdate_of_jacobian (cfg : Config α) (bounds : Bounds ν α)
    {rs : List (Residual ν α σ)} {y : Assignment ν α} {J : DenseMatrix α} {values : List α}
    (hJ : jacobian rs cfg.step y s = .ok J s')
    (hsuccess : J.invertSquare.1 = .success) :
    systemUpdate rs cfg bounds y values s =
      (if cfg.damping then
        search rs cfg bounds y (newtonUpdate J.invertSquare.2 values) (Scalar.maxAbs values)
      else return moveBy bounds y (newtonUpdate J.invertSquare.2 values) 1) s' := by
  rw [systemUpdate, bind_apply, hJ]
  dsimp only
  rw [if_neg (not_not_intro hsuccess)]

/-- **Every order of the equations and of the unknowns leads to the same next point.** -/
theorem follows_systemUpdate (hfs : (fs.map Prod.snd).Perm (fs'.map Prod.snd))
    (hdistinct : Distinct x) (hx : x.Perm x') (cfg : Config α) (bounds : Bounds ν α)
    (hlen : fs.length = x.length) {values values' : List α}
    (hvalues : List.Forall₂ (fun f y => f (byName x) = .ok y) (fs.map Prod.snd) values)
    (hvalues' : List.Forall₂ (fun f y => f (byName x') = .ok y) (fs'.map Prod.snd) values') :
    Follows List.Perm
      (fun e => cfg.damping = true ∧ FailsAtTrial (fs.map Prod.snd) cfg.step bounds x e)
      (systemUpdate (σ := σ) (namedResiduals fs) cfg bounds x values)
      (systemUpdate (namedResiduals fs') cfg bounds x' values') := by
  intro s next s' hnext
  have hm : byName x' = byName x := (byName_eq_of_perm hdistinct hx).symm
  have hdistinct' : Distinct x' := hdistinct.perm hx
  have hlen₁ : (fs.map Prod.snd).length = x.length := by rw [List.length_map, hlen]
  have hlen₂ : (fs'.map Prod.snd).length = x'.length := by
    rw [← hfs.length_eq, ← hx.length_eq, hlen₁]
  obtain ⟨J, s₁, hJ, hrest⟩ := bind_eq_ok.mp hnext
  have hsuccess : J.invertSquare.1 = .success := not_not.mp (guard_eq_ok.mp hrest).1
  obtain ⟨rfl, D, hslopes, htable⟩ := slopes_of_jacobian hdistinct hJ
  -- The Jacobian of the other order holds the same slopes.
  obtain ⟨J', hJ', htable'⟩ :=
    exists_jacobian_of_slopes hdistinct' (hslopes.perm hfs hdistinct hx) s
  have hreg := (htable.success_iff hdistinct.of_map hlen₁).mp hsuccess
  have hreg' := hreg.perm hfs hx
  have hsuccess' := (htable'.success_iff hdistinct'.of_map hlen₂).mpr hreg'
  obtain ⟨d, hd, hupdate⟩ := htable.exists_corrects hdistinct.of_map hlen₁ hsuccess hvalues
  obtain ⟨d', hd', hupdate'⟩ := htable'.exists_corrects hdistinct'.of_map hlen₂ hsuccess' hvalues'
  -- Both updates are the one direction that corrects the functions.
  have hsame : x'.map d' = x'.map d :=
    List.map_congr_left (hd'.unique hreg' (hd.perm hfs hdistinct hx))
  rw [systemUpdate_of_jacobian cfg bounds hJ hsuccess, hupdate] at hnext
  rw [systemUpdate_of_jacobian cfg bounds hJ' hsuccess', hupdate', hsame,
    ← maxAbs_eq_of_values hfs hvalues (hm ▸ hvalues')]
  by_cases hdamping : cfg.damping = true
  · rw [if_pos hdamping] at hnext ⊢
    have hsearch := follows_search (σ := σ) hfs hdistinct hx cfg bounds d (Scalar.maxAbs values)
    refine hsearch.mono (fun e he => ⟨hdamping, D, d, ?_⟩) s next s' hnext
    obtain ⟨length, he⟩ := he
    exact ⟨length, hslopes, hd, he⟩
  · rw [if_neg hdamping] at hnext ⊢
    exact Follows.pure (perm_moveBy hx bounds d 1) s next s' hnext

/-! ### The iteration -/

/-- From its iterates a damped iteration may fail with this error in another order. -/
def FailsInOtherOrder (fs : List (EquationName × NamedFunction ν α)) (cfg : Config α)
    (bounds : Bounds ν α) (x : Assignment ν α) (s : σ) (e : Error α) : Prop :=
  cfg.damping = true ∧ ∃ n y s₁, Reaches (namedResiduals fs) cfg bounds n x s y s₁ ∧
    FailsAtTrial (fs.map Prod.snd) cfg.step bounds y e

/-- By induction on the iterates that are left: in another order the iteration ends at the same
point or `FailsInOtherOrder`. -/
private theorem same_or_fails_of_systemIterate (hfs : (fs.map Prod.snd).Perm (fs'.map Prod.snd))
    {cfg : Config α} {bounds : Bounds ν α} :
    ∀ {n : Nat} {last : Option α} {x x' z : Assignment ν α} {s s' : σ}, Distinct x → x.Perm x' →
      fs.length = x.length →
      systemIterate (namedResiduals fs) cfg bounds n last x s = .ok z s' →
      (∃ z', systemIterate (namedResiduals fs') cfg bounds n last x' s = .ok z' s' ∧ z.Perm z') ∨
      ∃ e s'', systemIterate (namedResiduals fs') cfg bounds n last x' s = .error e s'' ∧
        FailsInOtherOrder fs cfg bounds x s e
  | 0, _, _, _, _, _, _, _, _, _, h => by cases h
  | n + 1, last, x, x', z, s, s', hdistinct, hx, hlen, h => by
    obtain ⟨values, s₁, hfirst, hrest⟩ := bind_eq_ok.mp h
    obtain ⟨hvalues, rfl⟩ := evaluateAll_named_eq_ok_iff.mp hfirst
    have hm : byName x' = byName x := (byName_eq_of_perm hdistinct hx).symm
    obtain ⟨values', hvalues', -⟩ := exists_values_of_perm hfs hvalues
    have hsecond : evaluateAll x' (namedResiduals fs') s = .ok values' s :=
      evaluateAll_named_eq_ok_iff.mpr ⟨hm ▸ hvalues', rfl⟩
    rw [systemIterate, bind_apply, hsecond]
    dsimp only
    -- Both orders see the same largest residual, so they stop at the same iterate.
    rw [← maxAbs_eq_of_values hfs hvalues hvalues']
    by_cases hsmall : Scalar.lt (Scalar.maxAbs values) cfg.margin = true
    · rw [if_pos hsmall] at hrest ⊢
      obtain ⟨rfl, rfl⟩ := pure_eq_ok.mp hrest
      exact .inl ⟨x', rfl, hx⟩
    rw [if_neg hsmall] at hrest ⊢
    obtain ⟨next, s₂, hnext, hrest⟩ := bind_eq_ok.mp hrest
    -- Only the update can tell the orders apart, by the trial at which it fails.
    rcases follows_systemUpdate (σ := σ) hfs hdistinct hx cfg bounds hlen hvalues
      (hm ▸ hvalues') s next s₂ hnext with ⟨next', hnext', hperm⟩ | ⟨e, s₃, he, hdamping, hfails⟩
    · have hkeys := keys_systemUpdate (by rw [namedResiduals, List.length_map, hlen]) hnext
      have hdistinct₁ : Distinct next := by rwa [Distinct, hkeys]
      have hlen₁ : fs.length = next.length := by
        rw [hlen]
        simpa using (congrArg List.length hkeys).symm
      rcases same_or_fails_of_systemIterate hfs hdistinct₁ hperm hlen₁ hrest with
        ⟨z', hz', hsame⟩ | ⟨e, s₃, he, hdamping, k, y, s₄, hreaches, hfails⟩
      · exact .inl ⟨z', bind_eq_ok.mpr ⟨next', s₂, hnext', hz'⟩, hsame⟩
      · exact .inr ⟨e, s₃, bind_eq_error.mpr (.inr ⟨next', s₂, hnext', he⟩), hdamping, k + 1, y, s₄,
          .step ⟨hfirst, hsmall⟩ hnext hreaches, hfails⟩
    · exact .inr ⟨e, s₃, bind_eq_error.mpr (.inl he), hdamping, 0, x, s, .refl x s, hfails⟩

/-- **The order of the equations and the order of the unknowns do not matter**, in exact arithmetic.
If a system of functions of the values by name is solved, it is solved in every other order as
well, and the same map from unknowns to values is returned. The one exception is a damped iteration
that in the other order fails at a trial point beside one of the iterates: with the error of one
equation that is not of arithmetic, where another equation fails with an error of arithmetic, which
alone would have been passed over. -/
theorem same_in_every_order {guess guess' : Assignment ν α} {cfg : Config α} {bounds : Bounds ν α}
    (hfs : (fs.map Prod.snd).Perm (fs'.map Prod.snd)) (hguess : guess.Perm guess')
    (hdistinct : Distinct guess)
    (h : solveSystem (namedResiduals fs) guess cfg bounds s = .ok x s') :
    (∃ x', solveSystem (namedResiduals fs') guess' cfg bounds s = .ok x' s' ∧ x.Perm x' ∧
      byName x = byName x') ∨
    ∃ e s'', solveSystem (namedResiduals fs') guess' cfg bounds s = .error e s'' ∧
      FailsInOtherOrder fs cfg bounds (guess.map fun u => (u.1, clamp u.2 (bounds u.1))) s e := by
  obtain ⟨hmargin, hlen, hiterate⟩ := solveSystem_eq_ok_iff.mp h
  rw [namedResiduals, List.length_map] at hlen
  have hlen' : (namedResiduals (σ := σ) fs').length = guess'.length := by
    have hcount := hfs.length_eq
    rw [List.length_map, List.length_map] at hcount
    rw [namedResiduals, List.length_map, ← hcount, hlen, hguess.length_eq]
  have hstart : Distinct (guess.map fun u => (u.1, clamp u.2 (bounds u.1))) := by
    rw [Distinct, List.map_map]
    exact hdistinct
  obtain ⟨hkeys, -⟩ := converged_of_solveSystem (residualsKeep_true _) (over_true _) trivial h
  rw [solveSystem_eq_systemIterate hmargin hlen' s]
  rcases same_or_fails_of_systemIterate hfs hstart (hguess.map _) (by rw [hlen, List.length_map])
    hiterate with ⟨x', hx', hperm⟩ | hfails
  · exact .inl ⟨x', hx', hperm, byName_eq_of_perm (by rwa [Distinct, hkeys]) hperm⟩
  · exact .inr hfails

/-! ### A disputed point -/

/-- One less than the square of `x`. Where `x` is below minus two, it fails with an error of
arithmetic. -/
def squareLessOne : NamedFunction String Rat := fun m =>
  match m "x" with
  | some x => if x < -2 then .error (.fault .badValue) else .ok (x * x - 1)
  | none => .error (.fault .unknownKey)

/-- The value of `y`. Where `x` is below minus two, it fails with another error. -/
def guardedIdentity : NamedFunction String Rat := fun m =>
  match m "x", m "y" with
  | some x, some y => if x < -2 then .error (.fault .unknownKey) else .ok y
  | _, _ => .error (.fault .unknownKey)

/-- The two functions as a system, in one order and in the other. -/
def guardedSystem : List (EquationName × NamedFunction String Rat) :=
  [(.text "square", squareLessOne), (.text "identity", guardedIdentity)]

/-- From here the first trial point is one where `x` is below minus two. -/
def overshooting : Assignment String Rat := [("x", mkRat (-1) 4), ("y", 0)]

/-- Damped, with a large margin. -/
def coarseConfig : Config Rat := { Config.ofMargin (mkRat 1 2) 50 with damping := true }

/-- **The order of the equations may matter**: with the square first the trial point is passed over,
and the half step is taken; with the identity first its error is let through. -/
theorem exists_order_that_fails :
    ¬ ∀ (fs fs' : List (EquationName × NamedFunction String Rat))
      (guess guess' x : Assignment String Rat) (cfg : Config Rat) (bounds : Bounds String Rat),
      fs.Perm fs' → guess.Perm guess' → Distinct guess →
      solveSystem (σ := Unit) (namedResiduals fs) guess cfg bounds () = .ok x () →
        ∃ x', solveSystem (σ := Unit) (namedResiduals fs') guess' cfg bounds () = .ok x' () ∧
          byName x = byName x' := by
  intro hall
  have hfirst : succeeded (solveSystem (σ := Unit) (namedResiduals guardedSystem) overshooting
      coarseConfig (fun _ => none) ()) = true := by
    rw [solveSystem_eq_within 2 (by decide +kernel)]
    decide +kernel
  have hsecond : succeeded (solveSystem (σ := Unit) (namedResiduals guardedSystem.reverse)
      overshooting coarseConfig (fun _ => none) ()) = false := by
    rw [solveSystem_eq_within 2 (by decide +kernel)]
    decide +kernel
  obtain ⟨x, u, hx⟩ := succeeded_eq_true_iff.mp hfirst
  obtain ⟨x', hx', -⟩ := hall _ _ _ _ x coarseConfig _ (List.reverse_perm guardedSystem).symm
    (.refl overshooting) (by decide) hx
  rw [hx'] at hsecond
  cases hsecond

/-- From where the functions are not disputed, both orders lead to the same map; from the other
point the second order fails with the error that is not of arithmetic. -/
theorem same_in_every_order_guarded :
    (∃ x x', solveSystem (σ := Unit) (namedResiduals guardedSystem) [("x", 3), ("y", 1)]
        coarseConfig (fun _ => none) () = .ok x () ∧
      solveSystem (σ := Unit) (namedResiduals guardedSystem.reverse) [("y", 1), ("x", 3)]
        coarseConfig (fun _ => none) () = .ok x' () ∧ byName x = byName x') ∧
    ∃ x e, solveSystem (σ := Unit) (namedResiduals guardedSystem) overshooting coarseConfig
        (fun _ => none) () = .ok x () ∧
      solveSystem (σ := Unit) (namedResiduals guardedSystem.reverse) overshooting coarseConfig
        (fun _ => none) () = .error e () ∧
      FailsInOtherOrder guardedSystem coarseConfig (fun _ => none) overshooting () e := by
  have hfunctions : (guardedSystem.map Prod.snd).Perm (guardedSystem.reverse.map Prod.snd) :=
    (List.reverse_perm guardedSystem).symm.map _
  have hnear : succeeded (solveSystem (σ := Unit) (namedResiduals guardedSystem)
      [("x", 3), ("y", 1)] coarseConfig (fun _ => none) ()) = true := by
    rw [solveSystem_eq_within 2 (by decide +kernel)]
    decide +kernel
  have hnear' : succeeded (solveSystem (σ := Unit) (namedResiduals guardedSystem.reverse)
      [("y", 1), ("x", 3)] coarseConfig (fun _ => none) ()) = true := by
    rw [solveSystem_eq_within 2 (by decide +kernel)]
    decide +kernel
  have hfar : succeeded (solveSystem (σ := Unit) (namedResiduals guardedSystem) overshooting
      coarseConfig (fun _ => none) ()) = true := by
    rw [solveSystem_eq_within 2 (by decide +kernel)]
    decide +kernel
  have hfar' : succeeded (solveSystem (σ := Unit) (namedResiduals guardedSystem.reverse)
      overshooting coarseConfig (fun _ => none) ()) = false := by
    rw [solveSystem_eq_within 2 (by decide +kernel)]
    decide +kernel
  -- How the four runs end has been computed; which alternative holds follows from that.
  obtain ⟨x, u, hx⟩ := succeeded_eq_true_iff.mp hnear
  obtain ⟨y, v, hy⟩ := succeeded_eq_true_iff.mp hfar
  constructor
  · rcases same_in_every_order hfunctions (List.Perm.swap _ _ _) (by decide) hx with
      ⟨x', hx', -, hsame⟩ | ⟨e, s'', he, -⟩
    · exact ⟨x, x', hx, hx', hsame⟩
    · rw [he] at hnear'
      cases hnear'
  · rcases same_in_every_order hfunctions (.refl overshooting) (by decide) hy with
      ⟨y', hy', -⟩ | ⟨e, s'', he, hfails⟩
    · rw [hy'] at hfar'
      cases hfar'
    · exact ⟨y, e, hy, he, hfails⟩

end FluxBalance.Newton
