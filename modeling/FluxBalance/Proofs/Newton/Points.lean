import FluxBalance.Proofs.Newton.Bounds

/-!
# The points that an iteration looks at

An iteration looks at its residuals only at its iterates, at two points `Beside` an iterate for each
unknown, and at the points that it tries next. `Explored` says that these points all have some
property. Then whatever the residuals do elsewhere makes no difference: `mirrors_solveSystem` says
that residuals whose values mirror each other at points with the property are iterated alike, also
if they work on states of different types.

One such property is that the points list the unknowns of the guess, each of them and in their
order: a difference quotient moves one value, and an update has an entry for each residual, of which
there are as many as unknowns.

## Main definitions and results

* `Explored`: the points at which an iteration looks;
* `MirroredAt`, `SameAt`: residuals that mirror each other at some points only;
* `mirrors_solveSystem`, `mirrors_solveScalar`: what residuals do at other points is not seen.
-/

namespace FluxBalance.Newton

open FluxBalance.Computation

variable {ν α σ τ : Type}

/-- The residuals have the same names, and at points with the property their values mirror each
other. -/
def MirroredAt (S : σ → τ → Prop) (D : Assignment ν α → Prop) :
    List (Residual ν α σ) → List (Residual ν α τ) → Prop :=
  List.Forall₂ fun r q => r.name = q.name ∧ ∀ x, D x → Mirrors S (r.value x) (q.value x)

variable [Scalar α]

/-- The second number lies one step of a finite difference above or below the first. -/
def Beside (step x y : α) : Prop := y = x + absoluteStep x step ∨ y = x - absoluteStep x step

/-- From iterates with the property `I` the iteration looks only at points with the property `D` and
goes on to iterates with the property `I`, if updates have the given number of entries. -/
structure Explored (entries : Nat) (step : α) (bounds : Bounds ν α)
    (I D : Assignment ν α → Prop) : Prop where
  here : ∀ x, I x → D x
  beside : ∀ x (j : Nat) u value, I x → x[j]? = some u → Beside step u.2 value →
    D (setAt x j value)
  next : ∀ x update length, I x → update.length = entries → I (moveBy bounds x update length)

variable {S : σ → τ → Prop} {D I : Assignment ν α → Prop} {rs : List (Residual ν α σ)}
  {qs : List (Residual ν α τ)} {x : Assignment ν α}

/-! ### Evaluations -/

/-- Residuals of one name that mirror each other are evaluated alike. -/
private theorem mirrors_evaluate {r : Residual ν α σ} {q : Residual ν α τ} (hname : r.name = q.name)
    (h : Mirrors S (r.value x) (q.value x)) : Mirrors S (r.evaluate x) (q.evaluate x) := by
  intro s t hst
  have hends := h s t hst
  unfold Residual.evaluate
  rw [hname]
  generalize r.value x s = a at hends
  generalize q.value x t = b at hends
  cases hends with
  | ok y hleft =>
    dsimp only
    split
    · exact .ok y hleft
    · exact .error _ hleft
  | error e hleft =>
    dsimp only
    split
    · exact .error _ hleft
    · exact .error e hleft

/-- Lists of residuals that are `MirroredAt` a point are evaluated alike there. -/
private theorem mirrors_evaluateAll (h : MirroredAt S D rs qs) (hx : D x) :
    Mirrors S (evaluateAll x rs) (evaluateAll x qs) := by
  induction h with
  | nil => exact .pure _
  | @cons r q rs qs hr _ ih =>
    exact .bind (mirrors_evaluate hr.1 (hr.2 x hx)) fun _ => .bind ih fun _ => .pure _

omit [Scalar α] in
private theorem mirrors_lift {β : Type} (r : Except (Error α) β) :
    Mirrors S (lift r : EStateM (Error α) σ β) (lift r) := by
  cases r with
  | ok b => exact .pure b
  | error e => exact .throw e

/-- Computing difference quotients does not look at the state. -/
private theorem mirrors_quotients (step xj : α) : ∀ ps : List (α × α), Mirrors S
    (ps.mapM fun p => (lift (divide (p.1 - p.2) (Scalar.two * absoluteStep xj step)) :
      EStateM (Error α) σ α))
    (ps.mapM fun p => lift (divide (p.1 - p.2) (Scalar.two * absoluteStep xj step)))
  | [] => .pure _
  | p :: ps => by
    rw [List.mapM_cons, List.mapM_cons]
    exact .bind (mirrors_lift _) fun _ => .bind (mirrors_quotients step xj ps) fun _ => .pure _

/-! ### Updates -/

section

variable {step : α} {cfg : Config α} {bounds : Bounds ν α} (h : MirroredAt S D rs qs)

include h

private theorem mirrors_jacobianColumn (hexp : Explored rs.length step bounds I D) (hx : I x)
    {j : Nat} {u : ν × α} (hu : x[j]? = some u) :
    Mirrors S (jacobianColumn rs step x j u.2) (jacobianColumn qs step x j u.2) :=
  .bind (mirrors_evaluateAll h (hexp.beside x j u _ hx hu (.inl rfl))) fun _ =>
    .bind (mirrors_evaluateAll h (hexp.beside x j u _ hx hu (.inr rfl))) fun _ =>
      mirrors_quotients step u.2 _

private theorem mirrors_jacobianColumns (hexp : Explored rs.length step bounds I D) (hx : I x) :
    ∀ j ys, x.drop j = ys →
      Mirrors S (jacobianColumns rs step x j ys) (jacobianColumns qs step x j ys)
  | _, [], _ => .pure _
  | j, u :: rest, hdrop => by
    have hu : x[j]? = some u := by
      rw [← List.head?_drop, hdrop]
      rfl
    have hrest : x.drop (j + 1) = rest := by
      rw [← List.tail_drop, hdrop]
      rfl
    exact .bind (mirrors_jacobianColumn h hexp hx hu) fun _ =>
      .bind (mirrors_jacobianColumns hexp hx (j + 1) rest hrest) fun _ => .pure _

/-- Forming the `jacobian` looks at the residuals at `Explored` points only. -/
private theorem mirrors_jacobian (hexp : Explored rs.length step bounds I D) (hx : I x) :
    Mirrors S (jacobian rs step x) (jacobian qs step x) := by
  unfold jacobian
  rw [h.length_eq]
  exact .bind (mirrors_jacobianColumns h hexp hx 0 x rfl) fun _ => .pure _

private theorem mirrors_trialResidual (hx : D x) :
    Mirrors S (trialResidual rs x) (trialResidual qs x) := by
  intro s t hst
  have hends := mirrors_evaluateAll h hx s t hst
  unfold trialResidual
  generalize evaluateAll x rs s = a at hends
  generalize evaluateAll x qs t = b at hends
  cases hends with
  | ok values hleft => exact .ok _ hleft
  | error e hleft =>
    cases e with
    | evaluation => exact .ok _ hleft
    | _ => exact .error _ hleft

omit h in
/-- If one of two searches whose trials mirror each other ends, the other one ends alike. -/
private theorem SearchEnds.mirrored {S : σ → τ → Prop} {rs : List (Residual ν α σ)}
    {qs : List (Residual ν α τ)} {update : List α} {target shorten length : α} {s : σ}
    {r : EStateM.Result (Error α) σ (Assignment ν α)}
    (htrials : ∀ length, Mirrors S (trialResidual rs (moveBy bounds x update length))
      (trialResidual qs (moveBy bounds x update length)))
    (hends : SearchEnds rs bounds x update target shorten length s r) :
    ∀ t, S s t → ∃ r', SearchEnds qs bounds x update target shorten length t r' ∧ Alike S r r' := by
  induction hends with
  | accepted hlong htrial hsmall =>
    intro t hst
    obtain ⟨t', htrial', hleft⟩ := (htrials _).of_ok hst htrial
    exact ⟨_, .accepted hlong htrial' hsmall, .ok _ hleft⟩
  | passedOver hlong htrial hlarge _ ih =>
    intro t hst
    obtain ⟨t', htrial', hleft⟩ := (htrials _).of_ok hst htrial
    obtain ⟨r', hends', halike⟩ := ih t' hleft
    exact ⟨r', .passedOver hlong htrial' hlarge hends', halike⟩
  | failed hlong htrial =>
    intro t hst
    obtain ⟨t', htrial', hleft⟩ := (htrials _).of_error hst htrial
    exact ⟨_, .failed hlong htrial', .error _ hleft⟩
  | exhausted hshort hle => exact fun t hst => ⟨_, .exhausted hshort hle, .ok _ hst⟩
  | undefined hshort hle => exact fun t hst => ⟨_, .undefined hshort hle, .ok _ hst⟩

/-- The line search looks at the residuals at `Explored` points only, and it ends for both or for
neither. -/
private theorem mirrors_search (hexp : Explored rs.length cfg.step bounds I D) (hx : I x)
    {update : List α} (hupdate : update.length = rs.length) (worst : α) :
    Mirrors S (search rs cfg bounds x update worst) (search qs cfg bounds x update worst) := by
  have htrials (length : α) := mirrors_trialResidual h
    (hexp.here _ (hexp.next x update length hx hupdate))
  intro s t hst
  rcases search_cases rs cfg bounds x update worst s with hends | ⟨hnever, hsearch⟩
  · obtain ⟨r', hends', halike⟩ := hends.mirrored htrials t hst
    rwa [hends'.search_eq]
  · -- If the other search ended, so would this one.
    rcases search_cases qs cfg bounds x update worst t with hends' | ⟨-, hsearch'⟩
    · obtain ⟨r, hr, -⟩ := hends'.mirrored (fun length => (htrials length).flip) s hst
      exact absurd hr (hnever r)
    · rw [hsearch, hsearch']
      exact .error _ hst

/-- An update by `systemUpdate` looks at the residuals at `Explored` points only. -/
private theorem mirrors_systemUpdate (hexp : Explored rs.length cfg.step bounds I D) (hx : I x)
    (values : List α) :
    Mirrors S (systemUpdate rs cfg bounds x values) (systemUpdate qs cfg bounds x values) := by
  refine .bind_of_ok (mirrors_jacobian h hexp hx) fun J hJ => ?_
  obtain ⟨s, s', hJ⟩ := hJ
  have hmove := mirrors_search h hexp hx (length_update_of_jacobian hJ values)
    (Scalar.maxAbs values)
  exact .ite (.bind (.throw _) fun _ => .ite hmove (.pure _)) (.ite hmove (.pure _))

/-! ### The iteration -/

omit h in
/-- The next iterate is a point of the kind that is `Explored` from. -/
theorem Explored.systemUpdate (hexp : Explored rs.length cfg.step bounds I D) (hx : I x)
    {x' : Assignment ν α} {values : List α} {s s' : σ}
    (hnext : systemUpdate rs cfg bounds x values s = .ok x' s') : I x' := by
  rcases systemUpdate_eq_ok hnext with rfl | ⟨update, length, hupdate, rfl⟩
  · exact hx
  · exact hexp.next x update length hx hupdate

private theorem mirrors_systemIterate (hexp : Explored rs.length cfg.step bounds I D) :
    ∀ (n : Nat) (last : Option α) {x : Assignment ν α}, I x →
      Mirrors S (systemIterate rs cfg bounds n last x) (systemIterate qs cfg bounds n last x)
  | 0, _, _, _ => .throw _
  | n + 1, _, x, hx => by
    refine .bind (mirrors_evaluateAll h (hexp.here x hx)) fun values => ?_
    refine .ite (.pure _) (.bind_of_ok (mirrors_systemUpdate h hexp hx values) fun next hnext => ?_)
    obtain ⟨s, s', hnext⟩ := hnext
    exact mirrors_systemIterate hexp n _ (hexp.systemUpdate hx hnext)

/-- **An iteration does not see its residuals at points that it does not explore.** If there are not
as many of them as unknowns, it does not look at them at all. -/
theorem mirrors_solveSystem {guess : Assignment ν α}
    (hexp : rs.length = guess.length → Explored rs.length cfg.step bounds I D)
    (hguess : I (guess.map fun u => (u.1, clamp u.2 (bounds u.1)))) :
    Mirrors S (solveSystem rs guess cfg bounds) (solveSystem qs guess cfg bounds) := by
  unfold solveSystem
  rw [← h.length_eq]
  refine .bind (mirrors_lift _) fun _ => ?_
  by_cases hlen : rs.length = guess.length
  · rw [if_neg (not_not_intro hlen), if_neg (not_not_intro hlen)]
    exact mirrors_systemIterate h (hexp hlen) cfg.limit.toNat none hguess
  · rw [if_pos hlen, if_pos hlen]
    exact fun _ _ hst => .error _ hst

end

/-! ### Points with the unknowns of the guess -/

omit [Scalar α] in
/-- The residuals have the same names, and at points that list these unknowns they are the same. -/
def SameAt (keys : List ν) : List (Residual ν α σ) → List (Residual ν α σ) → Prop :=
  List.Forall₂ fun r q => r.name = q.name ∧ ∀ x, x.map Prod.fst = keys → r.value x = q.value x

/-- All points at which an iteration looks have the keys of the guess. -/
private theorem explored_keys (keys : List ν) (step : α) (bounds : Bounds ν α) :
    Explored keys.length step bounds (fun x => x.map Prod.fst = keys)
      fun x => x.map Prod.fst = keys where
  here _ hx := hx
  beside x j u value hx _ _ := (keys_setAt x j value).trans hx
  next x update length hx hupdate := by
    refine (keys_moveBy ?_).trans hx
    rw [hupdate, ← hx, List.length_map]

/-- **An iteration does not see its residuals at points that list other unknowns.** -/
theorem solveSystem_congr {rs qs : List (Residual ν α σ)} {guess : Assignment ν α}
    (h : SameAt (guess.map Prod.fst) rs qs) (cfg : Config α) (bounds : Bounds ν α) :
    solveSystem rs guess cfg bounds = solveSystem qs guess cfg bounds := by
  have hmirrored : MirroredAt Eq (fun x => x.map Prod.fst = guess.map Prod.fst) rs qs := by
    refine h.imp fun r q hr => ⟨hr.1, fun x hx => ?_⟩
    rw [hr.2 x hx]
    exact .refl _
  have hguess : (guess.map fun u => (u.1, clamp u.2 (bounds u.1))).map Prod.fst =
      guess.map Prod.fst := by
    rw [List.map_map]
    rfl
  have hexp (hlen : rs.length = guess.length) :
      Explored rs.length cfg.step bounds (fun x => x.map Prod.fst = guess.map Prod.fst)
        fun x => x.map Prod.fst = guess.map Prod.fst := by
    rw [hlen, ← List.length_map (f := Prod.fst)]
    exact explored_keys _ cfg.step bounds
  exact (mirrors_solveSystem hmirrored hexp hguess).eq

/-! ### One unknown -/

section

variable {f : ScalarFunction α σ} {g : ScalarFunction α τ} {I D : α → Prop}

private theorem mirrors_evaluateAt {x : α} (h : Mirrors S (f x) (g x)) :
    Mirrors S (evaluateAt f x) (evaluateAt g x) := by
  intro s t hst
  have hends := h s t hst
  unfold evaluateAt
  generalize f x s = a at hends
  generalize g x t = b at hends
  cases hends with
  | ok y hleft =>
    dsimp only
    split
    · exact .ok y hleft
    · exact .error _ hleft
  | error e hleft =>
    dsimp only
    split
    · exact .error _ hleft
    · exact .error _ hleft
    · split
      · exact .error _ hleft
      · exact .error e hleft

variable {step : α} {bounds : Option (Interval α)} (h : ∀ x, D x → Mirrors S (f x) (g x))
  (hhere : ∀ x, I x → D x) (hbeside : ∀ x y, I x → Beside step x y → D y)
  (hnext : ∀ x, I (clamp x bounds))

include h hbeside in
private theorem mirrors_centralDifference {x : α} (hx : I x) :
    Mirrors S (centralDifference f x step) (centralDifference g x step) :=
  .bind (mirrors_evaluateAt (h _ (hbeside x _ hx (.inl rfl)))) fun _ =>
    .bind (mirrors_evaluateAt (h _ (hbeside x _ hx (.inr rfl)))) fun _ => mirrors_lift _

include h hbeside in
/-- An update by `scalarUpdate` looks at the function beside the iterate only. -/
private theorem mirrors_scalarUpdate {x : α} (hx : I x) (y : α) :
    Mirrors S (scalarUpdate f bounds step x y) (scalarUpdate g bounds step x y) := by
  refine .bind (mirrors_centralDifference h hbeside hx) fun slope => ?_
  have hguard {c : Prop} [Decidable c] (next : α) : Mirrors S
      (do if c then throw (.domain .noRoot)
          return next : EStateM (Error α) σ α)
      (do if c then throw (.domain .noRoot)
          return next) :=
    .ite (.bind (.throw _) fun _ => .pure _) (.pure _)
  exact .ite (.bind (.throw _) fun _ => hguard _) (hguard _)

include h hhere hbeside hnext

/-- The loop `scalarIterate` looks at the function at its iterates and beside them only. -/
private theorem mirrors_scalarIterate (margin : α) (limit : Int) :
    ∀ (n : Nat) (last : Option α) {x : α}, I x →
      Mirrors S (scalarIterate f margin limit bounds step n last x)
        (scalarIterate g margin limit bounds step n last x)
  | 0, _, _, _ => .throw _
  | n + 1, _, x, hx => by
    refine .bind (mirrors_evaluateAt (h x (hhere x hx))) fun y => ?_
    refine .ite (.pure _) (.bind_of_ok (mirrors_scalarUpdate h hbeside hx y) fun next hok => ?_)
    obtain ⟨s, s', hok⟩ := hok
    obtain ⟨proposed, rfl⟩ := scalarUpdate_eq_ok hok
    exact mirrors_scalarIterate margin limit n _ (hnext proposed)

/-- **An iteration for one unknown does not see its function at points that it does not
explore.** -/
theorem mirrors_solveScalar (guess margin : α) (limit : Int) :
    Mirrors S (solveScalar f guess margin limit bounds step)
      (solveScalar g guess margin limit bounds step) := by
  have hiterate := mirrors_scalarIterate h hhere hbeside hnext margin limit limit.toNat none
    (hnext guess)
  refine .bind (mirrors_lift _) fun _ => ?_
  cases bounds with
  | none => exact hiterate
  | some interval =>
    obtain ⟨lo, hi⟩ := interval
    exact .ite (.bind (.throw _) fun _ => hiterate) hiterate

end

end FluxBalance.Newton
