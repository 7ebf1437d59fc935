import FluxBalance.Newton.System
import FluxBalance.Proofs.Computation

/-!
# How a search for a length ends

The loop `searchFrom` is a partial function: with a factor that is not less than one its lengths
need not fall, and then it may try one length after the other for ever. The relation `SearchEnds`
says how the loop ends if it does, with one case for each way to leave it and one for a trial that
is passed over. By `searchFrom_eq_some_iff` it is the graph of the loop, so whatever holds of all
searches is shown by induction on it.

The lengths of a search do not depend on what the trials find. Once one of them is not above the
shortest length, `Falls`, every search with this factor ends (`Falls.exists_searchEnds`).

What the loop does in a concrete case cannot be computed from its definition, since it is not known
beforehand that the loop ends. So `solveSystemWithin` makes a bounded number of trials and otherwise
gives up; if it does not give up, it is the iteration, by `solveSystem_eq_within`.

## Main definitions and results

* `SearchEnds`, `searchFrom_eq_some_iff`: how a search ends, as a relation whose graph is
  `searchFrom`;
* `search_cases`: a search has the result that it ends with, or it is `Error.endless`;
* `Falls`, `Falls.exists_searchEnds`: every search whose lengths fall ends;
* `searchWithin`, `solveSystem_eq_within`: searches with a bounded number of trials, which tests can
  run.
-/

namespace FluxBalance.Newton

open FluxBalance.Computation

variable {ν α σ : Type} [Scalar α]

/-! ### The graph of the loop -/

section

variable (rs : List (Residual ν α σ)) (bounds : Bounds ν α) (x : Assignment ν α) (update : List α)
  (target shorten : α)

/-- How a search from the given length on ends, when it starts in the given state. -/
inductive SearchEnds : α → σ → EStateM.Result (Error α) σ (Assignment ν α) → Prop
  /-- The trial finds `residuals` that are small enough. -/
  | accepted {length : α} {size : Option α} {s s' : σ} :
    Scalar.lt shortestLength length = true →
    trialResidual rs (moveBy bounds x update length) s = .ok size s' →
    size.any (Scalar.lt · target) = true →
    SearchEnds length s (.ok (moveBy bounds x update length) s')
  /-- The trial finds residuals that are too large, or none, and the next length decides. -/
  | passedOver {length : α} {size : Option α} {s s' : σ}
    {r : EStateM.Result (Error α) σ (Assignment ν α)} :
    Scalar.lt shortestLength length = true →
    trialResidual rs (moveBy bounds x update length) s = .ok size s' →
    ¬size.any (Scalar.lt · target) = true → SearchEnds (length * shorten) s' r →
    SearchEnds length s r
  /-- The trial fails with an error that is let through. -/
  | failed {length : α} {e : Error α} {s s' : σ} : Scalar.lt shortestLength length = true →
    trialResidual rs (moveBy bounds x update length) s = .error e s' →
    SearchEnds length s (.error e s')
  /-- The lengths have fallen to the shortest one. -/
  | exhausted {length : α} {s : σ} : ¬Scalar.lt shortestLength length = true →
    Scalar.le length shortestLength = true →
    SearchEnds length s (.ok (moveBy bounds x update shortestLength) s)
  /-- The length is no number. -/
  | undefined {length : α} {s : σ} : ¬Scalar.lt shortestLength length = true →
    ¬Scalar.le length shortestLength = true → SearchEnds length s (.ok x s)

end

variable {rs : List (Residual ν α σ)} {cfg : Config α} {bounds : Bounds ν α} {x : Assignment ν α}
  {update : List α} {target shorten worst length : α} {s : σ}
  {r : EStateM.Result (Error α) σ (Assignment ν α)}

/-- Whatever the loop `searchFrom` results in, `SearchEnds` derives. The induction is on the
approximations of the loop. -/
private theorem searchEnds_of_eq_some :
    searchFrom rs bounds x update target shorten length s = some r →
      SearchEnds rs bounds x update target shorten length s r := by
  refine searchFrom.partial_correctness rs bounds x update target shorten
    (SearchEnds rs bounds x update target shorten) (fun loop ih length s r h => ?_) length s r
  dsimp only at h
  split at h
  · rename_i hlong
    split at h
    · rename_i htrial
      cases h
      exact .failed hlong htrial
    · rename_i htrial
      split at h
      · rename_i hsmall
        cases h
        exact .accepted hlong htrial hsmall
      · rename_i hlarge
        exact .passedOver hlong htrial hlarge (ih _ _ _ h)
  · rename_i hshort
    split at h
    · rename_i hle
      cases h
      exact .exhausted hshort hle
    · rename_i hle
      cases h
      exact .undefined hshort hle

/-- **The relation `SearchEnds` is the graph of `searchFrom`.** -/
theorem searchFrom_eq_some_iff :
    searchFrom rs bounds x update target shorten length s = some r ↔
      SearchEnds rs bounds x update target shorten length s r := by
  refine ⟨searchEnds_of_eq_some, fun h => ?_⟩
  induction h with
  | accepted hlong htrial hsmall =>
    rw [searchFrom, if_pos hlong]
    dsimp only
    rw [htrial]
    exact if_pos hsmall
  | passedOver hlong htrial hlarge _ ih =>
    rw [searchFrom, if_pos hlong]
    dsimp only
    rw [htrial]
    exact (if_neg hlarge).trans ih
  | failed hlong htrial =>
    rw [searchFrom, if_pos hlong]
    dsimp only
    rw [htrial]
  | exhausted hshort hle => rw [searchFrom, if_neg hshort, if_pos hle]
  | undefined hshort hle => rw [searchFrom, if_neg hshort, if_neg hle]

/-- A search that ends has the result that it ends with. -/
theorem SearchEnds.search_eq
    (h : SearchEnds rs bounds x update (cfg.decrease * worst) cfg.shorten 1 s r) :
    search rs cfg bounds x update worst s = r := by
  rw [search, searchFrom_eq_some_iff.mpr h]
  rfl

/-- **A search has the result that it ends with, or it is `Error.endless`.** -/
theorem search_cases (rs : List (Residual ν α σ)) (cfg : Config α) (bounds : Bounds ν α)
    (x : Assignment ν α) (update : List α) (worst : α) (s : σ) :
    SearchEnds rs bounds x update (cfg.decrease * worst) cfg.shorten 1 s
        (search rs cfg bounds x update worst s) ∨
      (∀ r, ¬SearchEnds rs bounds x update (cfg.decrease * worst) cfg.shorten 1 s r) ∧
        search rs cfg bounds x update worst s = .error .endless s := by
  cases hresult : searchFrom rs bounds x update (cfg.decrease * worst) cfg.shorten 1 s with
  | some r =>
    have hends := searchFrom_eq_some_iff.mp hresult
    rw [hends.search_eq]
    exact .inl hends
  | none =>
    refine .inr ⟨fun r h => ?_, ?_⟩
    · rw [searchFrom_eq_some_iff.mpr h] at hresult
      cases hresult
    · rw [search, hresult]
      rfl

/-- A search that returns a point has ended. -/
theorem searchEnds_of_search_eq_ok {x' : Assignment ν α} {s' : σ}
    (h : search rs cfg bounds x update worst s = .ok x' s') :
    SearchEnds rs bounds x update (cfg.decrease * worst) cfg.shorten 1 s (.ok x' s') := by
  rcases search_cases rs cfg bounds x update worst s with hends | ⟨-, hendless⟩
  · rwa [h] at hends
  · rw [hendless] at h
    cases h

/-! ### Lengths that fall -/

/-- The length after the given number of trials. -/
def lengthAfter (shorten : α) : Nat → α → α
  | 0, length => length
  | n + 1, length => lengthAfter shorten n (length * shorten)

/-- With this factor the lengths fall from one to the shortest one, or stop being numbers. -/
def Falls (shorten : α) : Prop := ∃ n, ¬Scalar.lt shortestLength (lengthAfter shorten n 1) = true

/-- A search ends after the trials that it takes for its lengths to fall, if not before. -/
theorem exists_searchEnds (rs : List (Residual ν α σ)) (bounds : Bounds ν α) (x : Assignment ν α)
    (update : List α) (target : α) :
    ∀ (n : Nat) (length : α) (s : σ),
      ¬Scalar.lt shortestLength (lengthAfter shorten n length) = true →
        ∃ r, SearchEnds rs bounds x update target shorten length s r := by
  intro n
  induction n with
  | zero =>
    intro length s hshort
    by_cases hle : Scalar.le length shortestLength = true
    · exact ⟨_, .exhausted hshort hle⟩
    · exact ⟨_, .undefined hshort hle⟩
  | succ n ih =>
    intro length s hfalls
    by_cases hlong : Scalar.lt shortestLength length = true
    swap
    · by_cases hle : Scalar.le length shortestLength = true
      · exact ⟨_, .exhausted hlong hle⟩
      · exact ⟨_, .undefined hlong hle⟩
    cases htrial : trialResidual rs (moveBy bounds x update length) s with
    | error e s' => exact ⟨_, .failed hlong htrial⟩
    | ok size s' =>
      by_cases hsmall : size.any (Scalar.lt · target) = true
      · exact ⟨_, .accepted hlong htrial hsmall⟩
      · obtain ⟨r, hr⟩ := ih (length * shorten) s' hfalls
        exact ⟨r, .passedOver hlong htrial hsmall hr⟩

/-- **Every search whose lengths fall ends.** -/
theorem Falls.exists_searchEnds (h : Falls shorten) (rs : List (Residual ν α σ))
    (bounds : Bounds ν α) (x : Assignment ν α) (update : List α) (target : α) (s : σ) :
    ∃ r, SearchEnds rs bounds x update target shorten 1 s r := by
  obtain ⟨n, hn⟩ := h
  exact Newton.exists_searchEnds rs bounds x update target n 1 s hn

/-! ### A bounded number of trials -/

section

variable (rs : List (Residual ν α σ)) (cfg : Config α) (bounds : Bounds ν α)

/-- The search `searchFrom` with at most the given number of lengths. -/
def searchWithin (x : Assignment ν α) (update : List α) (target shorten : α) :
    Nat → α → σ → Option (EStateM.Result (Error α) σ (Assignment ν α))
  | 0, _, _ => none
  | n + 1, length, s =>
    if Scalar.lt shortestLength length then
      match trialResidual rs (moveBy bounds x update length) s with
      | .error e s => some (.error e s)
      | .ok size s =>
        if size.any fun size => Scalar.lt size target then
          some (.ok (moveBy bounds x update length) s)
        else searchWithin x update target shorten n (length * shorten) s
    else if Scalar.le length shortestLength then
      some (.ok (moveBy bounds x update shortestLength) s)
    else some (.ok x s)

/-- The update `systemUpdate` with at most `n` lengths in its search. -/
def systemUpdateWithin (n : Nat) (x : Assignment ν α) (values : List α) :
    EStateM (Error α) σ (Assignment ν α) := do
  let J ← jacobian rs cfg.step x
  let (outcome, inverse) := J.invertSquare
  if outcome ≠ .success then throw (.singularJacobian outcome)
  let update := newtonUpdate inverse values
  if cfg.damping then
    fun s => (searchWithin rs bounds x update (cfg.decrease * Scalar.maxAbs values) cfg.shorten n 1
      s).getD (.error .endless s)
  else
    return moveBy bounds x update 1

/-- The iteration `systemIterate` with at most `n` lengths in each search. -/
def systemIterateWithin (n : Nat) :
    Nat → Option α → Assignment ν α → EStateM (Error α) σ (Assignment ν α)
  | 0, last, _ => throw (.iterationLimit cfg.limit last)
  | k + 1, _, x => do
    let values ← evaluateAll x rs
    let worst := Scalar.maxAbs values
    if Scalar.lt worst cfg.margin then return x
    let next ← systemUpdateWithin rs cfg bounds n x values
    systemIterateWithin n k (some worst) next

/-- The call `solveSystem` with at most `n` lengths in each search. -/
def solveSystemWithin (n : Nat) (guess : Assignment ν α) :
    EStateM (Error α) σ (Assignment ν α) := do
  lift (checkMargin cfg.margin)
  if rs.length ≠ guess.length then throw (.unequalCounts rs.length guess.length)
  systemIterateWithin rs cfg bounds n cfg.limit.toNat none
    (guess.map fun (name, value) => (name, clamp value (bounds name)))

end

/-- The second computation ends as the first one does, unless the first one gives up. -/
private def Completes {β : Type} (m n : EStateM (Error α) σ β) : Prop :=
  ∀ s, m s = n s ∨ ∃ s', m s = .error .endless s'

omit [Scalar α] in
private theorem Completes.refl {β : Type} (m : EStateM (Error α) σ β) : Completes m m :=
  fun _ => .inl rfl

omit [Scalar α] in
private theorem Completes.bind {β γ : Type} {m n : EStateM (Error α) σ β}
    {f g : β → EStateM (Error α) σ γ} (hmn : Completes m n) (hfg : ∀ b, Completes (f b) (g b)) :
    Completes (m >>= f) (n >>= g) := by
  intro s
  rw [bind_apply, bind_apply]
  rcases hmn s with hsame | ⟨s', hup⟩
  · rw [hsame]
    cases n s with
    | ok b s₁ => exact hfg b s₁
    | error e s₁ => exact .inl rfl
  · exact .inr ⟨s', by rw [hup]⟩

omit [Scalar α] in
/-- A choice `Completes` another one if both alternatives do. -/
private theorem Completes.ite {β : Type} {c : Prop} [Decidable c]
    {m n m' n' : EStateM (Error α) σ β} (h : Completes m n) (h' : Completes m' n') :
    Completes (if c then m else m') (if c then n else n') := by
  split <;> assumption

omit [Scalar α] in
/-- Where the first computation does not give up, the one that `Completes` it ends in the same
way. -/
private theorem Completes.eq {β : Type} {m n : EStateM (Error α) σ β} (h : Completes m n)
    (hends : error? (m s) ≠ some .endless) : n s = m s := by
  rcases h s with hsame | ⟨s', hup⟩
  · exact hsame.symm
  · exact absurd (error?_eq_some_iff.mpr ⟨s', hup⟩) hends

/-- What a search finds with a bounded number of lengths, it ends with. -/
private theorem searchEnds_of_within :
    ∀ {n : Nat} {length : α} {s : σ},
      searchWithin rs bounds x update target shorten n length s = some r →
        SearchEnds rs bounds x update target shorten length s r
  | n + 1, length, s, h => by
    unfold searchWithin at h
    split at h
    · rename_i hlong
      split at h
      · rename_i htrial
        cases h
        exact .failed hlong htrial
      · rename_i htrial
        split at h
        · rename_i hsmall
          cases h
          exact .accepted hlong htrial hsmall
        · rename_i hlarge
          exact .passedOver hlong htrial hlarge (searchEnds_of_within h)
    · rename_i hshort
      split at h
      · rename_i hle
        cases h
        exact .exhausted hshort hle
      · rename_i hle
        cases h
        exact .undefined hshort hle

private theorem completes_search (rs : List (Residual ν α σ)) (cfg : Config α) (bounds : Bounds ν α)
    (n : Nat) (x : Assignment ν α) (update : List α) (worst : α) :
    Completes (fun s : σ => (searchWithin rs bounds x update (cfg.decrease * worst) cfg.shorten n 1
        s).getD (.error .endless s)) (search rs cfg bounds x update worst) := by
  intro s
  dsimp only
  cases h : searchWithin rs bounds x update (cfg.decrease * worst) cfg.shorten n 1 s with
  | none => exact .inr ⟨s, rfl⟩
  | some r => exact .inl (searchEnds_of_within h).search_eq.symm

/-- An update by `systemUpdate` completes `systemUpdateWithin` any number of trials. -/
private theorem completes_systemUpdate (n : Nat) (x : Assignment ν α) (values : List α) :
    Completes (systemUpdateWithin rs cfg bounds n x values)
      (systemUpdate rs cfg bounds x values) := by
  refine .bind (.refl _) fun J => ?_
  have hmove := Completes.ite (c := cfg.damping = true)
    (completes_search rs cfg bounds n x (newtonUpdate J.invertSquare.2 values)
      (Scalar.maxAbs values))
    (.refl (return moveBy bounds x (newtonUpdate J.invertSquare.2 values) 1))
  exact .ite (.bind (.refl _) fun _ => hmove) hmove

/-- By induction on the iterates that are left: `systemIterate` completes `systemIterateWithin` any
number of trials. -/
private theorem completes_systemIterate (n : Nat) :
    ∀ (k : Nat) (last : Option α) (x : Assignment ν α),
      Completes (systemIterateWithin rs cfg bounds n k last x)
        (systemIterate rs cfg bounds k last x)
  | 0, _, _ => .refl _
  | k + 1, _, _ => .bind (.refl _) fun values =>
    .ite (.refl _) (.bind (completes_systemUpdate n _ values) fun _ =>
      completes_systemIterate n k _ _)

/-- An update with a bounded number of trials is the update, unless it gives up. -/
theorem systemUpdate_eq_within {values : List α} (n : Nat)
    (h : error? (systemUpdateWithin rs cfg bounds n x values s) ≠ some .endless) :
    systemUpdate rs cfg bounds x values s = systemUpdateWithin rs cfg bounds n x values s :=
  (completes_systemUpdate n x values).eq h

/-- **An iteration with a bounded number of trials is the iteration**, unless it gives up. So a run
with few trials can be computed. -/
theorem solveSystem_eq_within {guess : Assignment ν α} (n : Nat)
    (h : error? (solveSystemWithin rs cfg bounds n guess s) ≠ some .endless) :
    solveSystem rs guess cfg bounds s = solveSystemWithin rs cfg bounds n guess s :=
  Completes.eq (.bind (.refl _) fun _ => .ite (.bind (.refl _) fun _ =>
    completes_systemIterate n _ _ _) (completes_systemIterate n _ _ _)) h

end FluxBalance.Newton
