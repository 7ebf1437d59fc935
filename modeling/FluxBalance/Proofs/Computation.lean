import Mathlib.Data.List.Forall2

/-!
# Reasoning about computations

A computation on a state ends in success or failure and leaves a state in either case. What is
proved here opens a computation at its steps: `bind_eq_ok` and `bind_eq_error` say how a
sequence of two computations can end, and `Keeps P m` says that `m` leaves a state with the
property `P` whenever it is started in one, however it ends. `FailsBy P Q m` says that `m`, started
in a state with `P`, fails with errors that have the property `Q` only; if no error has it, `m` does
not fail. `ErrsBy Q x` says the same of a result. `Approximates x y` says that a result `y` is the
same as `x` unless `x` is a failure. `Mirrors S m n` says that `m` and `n`, which may have states of
different types, end with the same value or error when they are started in states related by `S`,
and leave such states; `recorded f` mirrors `f` and writes down its arguments. `Follows S Q m n`
only says what `n` does where `m` succeeds: it succeeds as well, with a value related by `S`, or
fails with an error that has the property `Q`. That computations have such a property follows step
by step from their parts.
-/

namespace FluxBalance

/-! ### Results that may be failures -/

/-- Two results in a row succeed exactly if the first does and the second does after it. -/
theorem except_bind_eq_ok {ε β γ : Type} {x : Except ε β} {f : β → Except ε γ} {c : γ} :
    x >>= f = .ok c ↔ ∃ b, x = .ok b ∧ f b = .ok c := by
  cases x <;> simp [bind, Except.bind]

/-- Two results in a row fail as the first does, or as the second does after it. -/
theorem except_bind_eq_error {ε β γ : Type} {x : Except ε β} {f : β → Except ε γ} {e : ε} :
    x >>= f = .error e ↔ x = .error e ∨ ∃ b, x = .ok b ∧ f b = .error e := by
  cases x <;> simp [bind, Except.bind]

/-- The result that `Except.toOption` keeps is the one of the computation. -/
theorem except_toOption_eq_some {ε β : Type} {x : Except ε β} {b : β} :
    x.toOption = some b ↔ x = .ok b := by
  cases x <;> simp [Except.toOption]

/-- A list of results succeeds exactly if each of them does. -/
theorem except_mapM_eq_ok {ε β γ : Type} {f : β → Except ε γ} :
    ∀ {xs : List β} {ys : List γ},
      xs.mapM f = .ok ys ↔ List.Forall₂ (fun x y => f x = .ok y) xs ys
  | [], ys => by
    rw [List.mapM_nil, List.forall₂_nil_left_iff]
    constructor
    · rintro ⟨⟩
      rfl
    · rintro rfl
      rfl
  | x :: xs, ys => by
    rw [List.mapM_cons, except_bind_eq_ok, List.forall₂_cons_left_iff]
    constructor
    · rintro ⟨y, hy, h⟩
      obtain ⟨ys', hys, ⟨⟩⟩ := except_bind_eq_ok.mp h
      exact ⟨y, ys', hy, except_mapM_eq_ok.mp hys, rfl⟩
    · rintro ⟨y, ys', hy, hys, rfl⟩
      exact ⟨y, hy, except_bind_eq_ok.mpr ⟨ys', except_mapM_eq_ok.mpr hys, rfl⟩⟩

/-- A list of results fails as the first of them that fails. -/
theorem except_mapM_eq_error_iff {ε β γ : Type} {f : β → Except ε γ} {e : ε} :
    ∀ {xs : List β}, xs.mapM f = .error e ↔
      ∃ before x after, xs = before ++ x :: after ∧ (∀ y ∈ before, ∃ z, f y = .ok z) ∧
        f x = .error e
  | [] => by simp [pure, Except.pure]
  | x :: xs => by
    rw [List.mapM_cons, except_bind_eq_error]
    constructor
    · rintro (hx | ⟨z, hz, h⟩)
      · exact ⟨[], x, xs, rfl, nofun, hx⟩
      · rcases except_bind_eq_error.mp h with h | ⟨_, -, ⟨⟩⟩
        obtain ⟨before, y, after, rfl, hbefore, hy⟩ := except_mapM_eq_error_iff.mp h
        exact ⟨x :: before, y, after, rfl, List.forall_mem_cons.mpr ⟨⟨z, hz⟩, hbefore⟩, hy⟩
    · rintro ⟨before, y, after, hsplit, hbefore, hy⟩
      cases before with
      | nil =>
        cases hsplit
        exact .inl hy
      | cons _ before =>
        cases hsplit
        obtain ⟨⟨z, hz⟩, hbefore⟩ := List.forall_mem_cons.mp hbefore
        have hrest : (before ++ y :: after).mapM f = .error e :=
          except_mapM_eq_error_iff.mpr ⟨before, y, after, rfl, hbefore, hy⟩
        exact .inr ⟨z, hz, except_bind_eq_error.mpr (.inl hrest)⟩

/-- Lists of results in a row fail as the list of all results does. -/
theorem except_mapM_flatten_eq_error_iff {ε β γ : Type} {f : β → Except ε γ} {e : ε} :
    ∀ {rows : List (List β)},
      rows.flatten.mapM f = .error e ↔ (rows.mapM fun row => row.mapM f) = .error e
  | [] => by simp [pure, Except.pure]
  | row :: rows => by
    rw [List.flatten_cons, List.mapM_append, List.mapM_cons, except_bind_eq_error,
      except_bind_eq_error]
    refine or_congr_right (exists_congr fun xs => and_congr_right fun _ => ?_)
    rw [except_bind_eq_error, except_bind_eq_error, except_mapM_flatten_eq_error_iff]
    simp [pure, Except.pure]

/-- In lists that are related entry by entry, each entry of the second is related to one of the
first. -/
theorem exists_of_mem_of_forall₂ {β γ : Type} {R : β → γ → Prop} {xs : List β} {ys : List γ}
    (h : List.Forall₂ R xs ys) : ∀ y ∈ ys, ∃ x ∈ xs, R x y := by
  induction h with
  | nil => simp
  | @cons x y xs ys hxy _ ih =>
    refine List.forall_mem_cons.mpr ⟨⟨x, List.mem_cons_self, hxy⟩, fun z hz => ?_⟩
    obtain ⟨w, hw, hwz⟩ := ih z hz
    exact ⟨w, List.mem_cons_of_mem x hw, hwz⟩

/-- In lists that are related entry by entry, each entry of the first is related to the one at the
same position of the second. -/
theorem exists_getElem?_of_forall₂ {β γ : Type} {R : β → γ → Prop} {xs : List β} {ys : List γ}
    (h : List.Forall₂ R xs ys) : ∀ {i : Nat} {x : β}, xs[i]? = some x →
      ∃ y, ys[i]? = some y ∧ R x y := by
  induction h with
  | nil => exact nofun
  | @cons x y xs ys hxy _ ih =>
    intro i z hz
    cases i with
    | zero =>
      obtain rfl : x = z := Option.some.inj hz
      exact ⟨y, rfl, hxy⟩
    | succ i => exact ih hz

/-- If each entry of a list is related to something, the list is related to a list. -/
theorem exists_forall₂ {β γ : Type} {R : β → γ → Prop} :
    ∀ {xs : List β}, (∀ x ∈ xs, ∃ y, R x y) → ∃ ys, List.Forall₂ R xs ys
  | [], _ => ⟨[], .nil⟩
  | x :: xs, h => by
    obtain ⟨⟨y, hy⟩, hxs⟩ := List.forall_mem_cons.mp h
    obtain ⟨ys, hys⟩ := exists_forall₂ hxs
    exact ⟨y :: ys, .cons hy hys⟩

/-- Each result of a list of results is the result of one of them. -/
theorem exists_of_mem_of_except_mapM {ε β γ : Type} {f : β → Except ε γ} {xs : List β}
    {ys : List γ} (h : xs.mapM f = .ok ys) : ∀ y ∈ ys, ∃ x ∈ xs, f x = .ok y :=
  exists_of_mem_of_forall₂ (except_mapM_eq_ok.mp h)

/-- Lists that are related entry by entry can be mapped to such lists. -/
theorem forall₂_map {β γ β' γ' : Type} {R : β → γ → Prop} {S : β' → γ' → Prop} {g : β → β'}
    {k : γ → γ'} {xs : List β} {ys : List γ} (hR : ∀ x ∈ xs, ∀ y, R x y → S (g x) (k y))
    (h : List.Forall₂ R xs ys) : List.Forall₂ S (xs.map g) (ys.map k) := by
  induction h with
  | nil => exact .nil
  | @cons x y xs ys hxy _ ih =>
    obtain ⟨hx, hxs⟩ := List.forall_mem_cons.mp hR
    exact .cons (hx y hxy) (ih hxs)

/-- A list of results has a result if each of them has one. -/
theorem exists_except_mapM {ε β γ : Type} {f : β → Except ε γ} {xs : List β}
    (h : ∀ x ∈ xs, ∃ y, f x = .ok y) : ∃ ys, xs.mapM f = .ok ys := by
  obtain ⟨ys, hys⟩ := exists_forall₂ h
  exact ⟨ys, except_mapM_eq_ok.mpr hys⟩

namespace Computation

variable {ε σ β γ : Type}

/-! ### How results can fail -/

/-- If the result is a failure, then one of the given kind. -/
def ErrsBy (Q : ε → Prop) (x : Except ε β) : Prop := ∀ e, x = .error e → Q e

namespace ErrsBy

variable {Q : ε → Prop} {x : Except ε β} {f : β → Except ε γ}

theorem ok (b : β) : ErrsBy Q (.ok b : Except ε β) := fun _ h => by cases h

theorem error {e : ε} (h : Q e) : ErrsBy Q (.error e : Except ε β) := by
  rintro _ ⟨⟩
  exact h

/-- What holds of all errors of a result may be weakened. -/
theorem mono {Q' : ε → Prop} (h : ErrsBy Q x) (hQ : ∀ e, Q e → Q' e) : ErrsBy Q' x :=
  fun e he => hQ e (h e he)

/-- What follows only has to fail in this way for the result that the first part has. -/
theorem bind_of_ok (hx : ErrsBy Q x) (hf : ∀ b, x = .ok b → ErrsBy Q (f b)) :
    ErrsBy Q (x >>= f) := by
  intro e he
  cases x with
  | ok b => exact hf b rfl e he
  | error cause =>
    cases he
    exact hx _ rfl

/-- A sequence fails as its first part does or as its second part does. -/
theorem bind (hx : ErrsBy Q x) (hf : ∀ b, ErrsBy Q (f b)) : ErrsBy Q (x >>= f) :=
  bind_of_ok hx fun b _ => hf b

/-- A list of results fails as one of them does. -/
theorem mapM {g : β → Except ε γ} :
    ∀ {xs : List β}, (∀ x ∈ xs, ErrsBy Q (g x)) → ErrsBy Q (xs.mapM g)
  | [], _ => by
    rw [List.mapM_nil]
    exact .ok []
  | x :: xs, h => by
    obtain ⟨hx, hxs⟩ := List.forall_mem_cons.mp h
    rw [List.mapM_cons]
    exact hx.bind fun _ => (mapM hxs).bind fun _ => .ok _

end ErrsBy

/-! ### Results that are found as well -/

/-- What the first result is, if it is no failure, the second one is too. -/
def Approximates (x y : Except ε β) : Prop := ∀ b, x = .ok b → y = .ok b

namespace Approximates

theorem refl (x : Except ε β) : Approximates x x := fun _ h => h

/-- Sequences approximate each other if their parts do. -/
theorem bind {x y : Except ε β} {f g : β → Except ε γ} (hxy : Approximates x y)
    (hfg : ∀ b, Approximates (f b) (g b)) : Approximates (x >>= f) (y >>= g) := by
  intro c h
  obtain ⟨b, hb, h⟩ := except_bind_eq_ok.mp h
  exact except_bind_eq_ok.mpr ⟨b, hxy b hb, hfg b c h⟩

/-- A choice between results `Approximates` the choice between the others. -/
theorem ite {c : Prop} [Decidable c] {x x' y y' : Except ε β} (h : Approximates x y)
    (h' : Approximates x' y') : Approximates (if c then x else x') (if c then y else y') := by
  split <;> assumption

end Approximates

/-! ### States that are left -/

/-- The state that is left. -/
def finalState : EStateM.Result ε σ β → σ
  | .ok _ s => s
  | .error _ s => s

@[simp] theorem finalState_ok (b : β) (s : σ) : finalState (.ok b s : EStateM.Result ε σ β) = s :=
  rfl

@[simp] theorem finalState_error (e : ε) (s : σ) :
    finalState (.error e s : EStateM.Result ε σ β) = s := rfl

/-- Whether the computation has succeeded. -/
def succeeded : EStateM.Result ε σ β → Bool
  | .ok .. => true
  | .error .. => false

theorem succeeded_eq_true_iff {r : EStateM.Result ε σ β} :
    succeeded r = true ↔ ∃ b s, r = .ok b s := by
  cases r <;> simp [succeeded]

/-- If it is not a success that `succeeded` finds, it is a failure. -/
theorem succeeded_eq_false_iff {r : EStateM.Result ε σ β} :
    succeeded r = false ↔ ∃ e s, r = .error e s := by
  cases r <;> simp [succeeded]

/-- The error that the computation has failed with, if it has. -/
def error? : EStateM.Result ε σ β → Option ε
  | .ok .. => none
  | .error e _ => some e

theorem error?_eq_some_iff {r : EStateM.Result ε σ β} {e : ε} :
    error? r = some e ↔ ∃ s, r = .error e s := by
  cases r <;> simp [error?]

/-! ### How computations end -/

section

variable {m : EStateM ε σ β} {f : β → EStateM ε σ γ} {s s' : σ}

/-- A sequence runs its second part, if any, in the state that the first part has left. -/
theorem bind_apply : (m >>= f) s =
    match m s with
    | .ok b s => f b s
    | .error e s => .error e s := rfl

/-- A sequence succeeds exactly if both of its parts do, one after the other. -/
theorem bind_eq_ok {c : γ} :
    (m >>= f) s = .ok c s' ↔ ∃ b s₁, m s = .ok b s₁ ∧ f b s₁ = .ok c s' := by
  rw [bind_apply]
  cases m s with
  | ok b s₁ =>
    refine ⟨fun h => ⟨b, s₁, rfl, h⟩, ?_⟩
    rintro ⟨_, _, ⟨⟩, h⟩
    exact h
  | error e s₁ => simp

/-- A sequence fails at its first part, or at its second part after the first has succeeded. -/
theorem bind_eq_error {e : ε} :
    (m >>= f) s = .error e s' ↔
      m s = .error e s' ∨ ∃ b s₁, m s = .ok b s₁ ∧ f b s₁ = .error e s' := by
  rw [bind_apply]
  cases m s with
  | ok b s₁ =>
    refine ⟨fun h => .inr ⟨b, s₁, rfl, h⟩, ?_⟩
    rintro (⟨⟨⟩⟩ | ⟨_, _, ⟨⟩, h⟩)
    exact h
  | error e s₁ => simp

/-- A computation behind a guard succeeds only where the guard lets it pass. -/
theorem guard_eq_ok {c : Prop} [Decidable c] {e : ε} {g : β → EStateM ε σ γ} {m : EStateM ε σ γ}
    {b : γ} : (if c then (throw e : EStateM ε σ β) >>= g else m) s = .ok b s' ↔
      ¬c ∧ m s = .ok b s' := by
  split
  · rename_i hc
    refine iff_of_false (fun h => ?_) fun h => h.1 hc
    obtain ⟨_, _, h, -⟩ := bind_eq_ok.mp h
    cases h
  · rename_i hc
    exact (and_iff_right hc).symm

theorem pure_eq_ok {b b' : β} :
    (pure b : EStateM ε σ β) s = .ok b' s' ↔ b = b' ∧ s = s' := by
  constructor
  · intro h
    cases h
    exact ⟨rfl, rfl⟩
  · rintro ⟨rfl, rfl⟩
    rfl

/-- A computation that may return at once. -/
theorem pure_or_eq_ok {c : Prop} [Decidable c] {b b' : β} :
    (if c then (pure b : EStateM ε σ β) else m) s = .ok b' s' ↔
      (c ∧ b = b' ∧ s = s') ∨ (¬c ∧ m s = .ok b' s') := by
  split
  · rename_i hc
    simp only [hc, true_and, not_true, false_and, or_false]
    exact pure_eq_ok
  · rename_i hc
    simp only [hc, false_and, not_false_iff, true_and, false_or]

end

/-! ### What computations keep -/

/-- Started in a state with the property, the computation leaves a state with the property,
whether it succeeds or fails. -/
def Keeps (P : σ → Prop) (m : EStateM ε σ β) : Prop := ∀ s, P s → P (finalState (m s))

namespace Keeps

variable {P : σ → Prop} {m : EStateM ε σ β} {f : β → EStateM ε σ γ} {s s' : σ}

theorem of_ok (h : Keeps P m) {b : β} (hs : P s) (hm : m s = .ok b s') : P s' := by
  have := h s hs
  rwa [hm] at this

theorem of_error (h : Keeps P m) {e : ε} (hs : P s) (hm : m s = .error e s') : P s' := by
  have := h s hs
  rwa [hm] at this

theorem pure (b : β) : Keeps P (pure b : EStateM ε σ β) := fun _ hs => hs

theorem throw (e : ε) : Keeps P (throw e : EStateM ε σ β) := fun _ hs => hs

/-- Nothing is kept by every computation. -/
theorem true (m : EStateM ε σ β) : Keeps (fun _ => True) m := fun _ _ => trivial

/-- What follows only has to keep the property for the results that the first part can have. -/
theorem bind_of_ok (hm : Keeps P m) (hf : ∀ b, (∃ s s', m s = .ok b s') → Keeps P (f b)) :
    Keeps P (m >>= f) := by
  intro s hs
  rw [bind_apply]
  cases h : m s with
  | ok b s₁ => exact hf b ⟨s, s₁, h⟩ s₁ (hm.of_ok hs h)
  | error e s₁ => exact hm.of_error hs h

theorem bind (hm : Keeps P m) (hf : ∀ b, Keeps P (f b)) : Keeps P (m >>= f) :=
  bind_of_ok hm fun b _ => hf b

end Keeps

/-! ### Computations that leave the state alone -/

/-- The computation leaves every state as it is, whether it succeeds or fails. -/
def Leaves (m : EStateM ε σ β) : Prop := ∀ s, finalState (m s) = s

namespace Leaves

variable {m : EStateM ε σ β} {f : β → EStateM ε σ γ} {s s' : σ}

theorem of_ok (h : Leaves m) {b : β} (hm : m s = .ok b s') : s' = s := by
  have := h s
  rwa [hm] at this

theorem of_error (h : Leaves m) {e : ε} (hm : m s = .error e s') : s' = s := by
  have := h s
  rwa [hm] at this

/-- A computation that `Leaves` the state alone keeps every property of it. -/
theorem keeps (h : Leaves m) (P : σ → Prop) : Keeps P m := fun s hs => by rwa [h s]

theorem pure (b : β) : Leaves (pure b : EStateM ε σ β) := fun _ => rfl

theorem throw (e : ε) : Leaves (throw e : EStateM ε σ β) := fun _ => rfl

/-- A sequence leaves the state alone if both of its parts do. -/
theorem bind (hm : Leaves m) (hf : ∀ b, Leaves (f b)) : Leaves (m >>= f) := by
  intro s
  rw [bind_apply]
  cases h : m s with
  | ok b s₁ => rw [← hm.of_ok h]; exact hf b s₁
  | error e s₁ => exact hm.of_error h

end Leaves

/-! ### How computations can fail -/

/-- Started in a state with the property, the computation fails with errors of the given kind
only. -/
def FailsBy (P : σ → Prop) (Q : ε → Prop) (m : EStateM ε σ β) : Prop :=
  ∀ s, P s → ∀ e s', m s = .error e s' → Q e

namespace FailsBy

variable {P : σ → Prop} {Q : ε → Prop} {m : EStateM ε σ β} {f : β → EStateM ε σ γ}

/-- A computation without errors that it could fail with succeeds. -/
theorem exists_ok (h : FailsBy P (fun _ => False) m) {s : σ} (hs : P s) :
    ∃ b s', m s = .ok b s' := by
  cases hm : m s with
  | ok b s' => exact ⟨b, s', rfl⟩
  | error e s' => exact absurd hm (h s hs e s')

/-- A computation that always succeeds does not fail. -/
theorem of_exists_ok (h : ∀ s, P s → ∃ b s', m s = .ok b s') : FailsBy P Q m := by
  intro s hs e s' hm
  obtain ⟨b, s₁, hb⟩ := h s hs
  rw [hb] at hm
  cases hm

/-- What `FailsBy` says of all errors may be weakened. -/
theorem mono {Q' : ε → Prop} (h : FailsBy P Q m) (hQ : ∀ e, Q e → Q' e) : FailsBy P Q' m :=
  fun s hs e s' hm => hQ e (h s hs e s' hm)

theorem pure (b : β) : FailsBy P Q (pure b : EStateM ε σ β) := fun _ _ _ _ h => by cases h

theorem throw {e : ε} (h : Q e) : FailsBy P Q (throw e : EStateM ε σ β) := by
  rintro s - _ _ ⟨⟩
  exact h

/-- What follows only has to fail in this way for the results that the first part can have. -/
theorem bind_of_ok (hm : FailsBy P Q m) (hkeep : Keeps P m)
    (hf : ∀ b, (∃ s s', P s ∧ m s = .ok b s') → FailsBy P Q (f b)) : FailsBy P Q (m >>= f) := by
  intro s hs e s' h
  rcases bind_eq_error.mp h with h | ⟨b, s₁, hb, h⟩
  · exact hm s hs e s' h
  · exact hf b ⟨s, s₁, hs, hb⟩ s₁ (hkeep.of_ok hs hb) e s' h

/-- A sequence whose first part keeps `P` fails as one of its parts does. -/
theorem bind (hm : FailsBy P Q m) (hkeep : Keeps P m) (hf : ∀ b, FailsBy P Q (f b)) :
    FailsBy P Q (m >>= f) :=
  bind_of_ok hm hkeep fun b _ => hf b

end FailsBy

/-! ### Computations that mirror each other -/

variable {τ : Type}

/-- Both results are successes with the same value or failures with the same error, and the states
that they leave are related. -/
inductive Alike (S : σ → τ → Prop) : EStateM.Result ε σ β → EStateM.Result ε τ β → Prop
  | ok (b : β) {s : σ} {t : τ} : S s t → Alike S (.ok b s) (.ok b t)
  | error (e : ε) {s : σ} {t : τ} : S s t → Alike S (.error e s) (.error e t)

/-- Started in related states, the computations end alike. -/
def Mirrors (S : σ → τ → Prop) (m : EStateM ε σ β) (n : EStateM ε τ β) : Prop :=
  ∀ s t, S s t → Alike S (m s) (n t)

namespace Mirrors

variable {S : σ → τ → Prop} {m : EStateM ε σ β} {n : EStateM ε τ β} {f : β → EStateM ε σ γ}
  {g : β → EStateM ε τ γ}

theorem pure (b : β) : Mirrors S (pure b : EStateM ε σ β) (pure b) := fun _ _ h => .ok b h

/-- Failing at once mirrors failing with the same error. -/
theorem throw (e : ε) : Mirrors S (throw e : EStateM ε σ β) (throw e) := fun _ _ h => .error e h

/-- A choice between computations mirrors the choice between those that they mirror. -/
theorem ite {c : Prop} [Decidable c] {m' : EStateM ε σ β} {n' : EStateM ε τ β}
    (h : Mirrors S m n) (h' : Mirrors S m' n') :
    Mirrors S (if c then m else m') (if c then n else n') := by
  split <;> assumption

/-- What follows only has to be mirrored for the results that the first part can have. -/
theorem bind_of_ok (hm : Mirrors S m n)
    (hf : ∀ b, (∃ s s', m s = .ok b s') → Mirrors S (f b) (g b)) :
    Mirrors S (m >>= f) (n >>= g) := by
  intro s t hst
  rw [bind_apply, bind_apply]
  have hends := hm s t hst
  generalize hfirst : m s = r at hends
  generalize n t = r' at hends
  cases hends with
  | ok b hleft => exact hf b ⟨s, _, hfirst⟩ _ _ hleft
  | error e hleft => exact .error e hleft

theorem bind (hm : Mirrors S m n) (hf : ∀ b, Mirrors S (f b) (g b)) :
    Mirrors S (m >>= f) (n >>= g) :=
  bind_of_ok hm fun b _ => hf b

/-- The second computation succeeds as the first one does. -/
theorem of_ok (h : Mirrors S m n) {s s' : σ} {t : τ} {b : β} (hst : S s t) (hm : m s = .ok b s') :
    ∃ t', n t = .ok b t' ∧ S s' t' := by
  have hends := h s t hst
  rw [hm] at hends
  generalize n t = r at hends
  cases hends with
  | ok _ hleft => exact ⟨_, rfl, hleft⟩

/-- The second computation fails as the first one does. -/
theorem of_error (h : Mirrors S m n) {s s' : σ} {t : τ} {e : ε} (hst : S s t)
    (hm : m s = .error e s') : ∃ t', n t = .error e t' ∧ S s' t' := by
  have hends := h s t hst
  rw [hm] at hends
  generalize n t = r at hends
  cases hends with
  | error _ hleft => exact ⟨_, rfl, hleft⟩

/-- What mirrors is mirrored: `Mirrors` holds in both directions. -/
theorem flip (h : Mirrors S m n) : Mirrors (fun t s => S s t) n m := by
  intro t s hst
  have hends := h s t hst
  generalize m s = r at hends
  generalize n t = r' at hends
  cases hends with
  | ok b hleft => exact .ok b hleft
  | error e hleft => exact .error e hleft

theorem refl (m : EStateM ε σ β) : Mirrors Eq m m := by
  rintro s _ rfl
  cases m s with
  | ok b s' => exact .ok b rfl
  | error e s' => exact .error e rfl

/-- Computations that mirror each other for equality are the same. -/
theorem eq {n : EStateM ε σ β} (h : Mirrors Eq m n) : m = n := by
  funext s
  have hends := h s s rfl
  generalize m s = r at hends
  generalize n s = r' at hends
  cases hends with
  | ok b hleft => rw [hleft]
  | error e hleft => rw [hleft]

end Mirrors

/-! ### Computations that follow each other -/

/-- Where the first computation returns, the second one returns as well, in the same state and with
a related value; or it fails with an error of the given kind. -/
def Follows (S : β → γ → Prop) (Q : ε → Prop) (m : EStateM ε σ β) (n : EStateM ε σ γ) : Prop :=
  ∀ s b s', m s = .ok b s' → (∃ c, n s = .ok c s' ∧ S b c) ∨ ∃ e s'', n s = .error e s'' ∧ Q e

namespace Follows

variable {δ ζ : Type} {S : β → γ → Prop} {T : δ → ζ → Prop} {Q Q' : ε → Prop} {m m' : EStateM ε σ β}
  {n n' : EStateM ε σ γ} {f : β → EStateM ε σ δ} {g : γ → EStateM ε σ ζ}

theorem pure {b : β} {c : γ} (h : S b c) :
    Follows S Q (pure b : EStateM ε σ β) (pure c) := by
  rintro s _ _ ⟨⟩
  exact .inl ⟨c, rfl, h⟩

/-- What `Follows` says of the errors of the second computation may be weakened. -/
theorem mono (h : Follows S Q m n) (hQ : ∀ e, Q e → Q' e) : Follows S Q' m n :=
  fun s b s' hm => (h s b s' hm).imp_right fun ⟨e, s'', hn, he⟩ => ⟨e, s'', hn, hQ e he⟩

/-- A choice between computations follows the choice between those that they follow. -/
theorem ite {c : Prop} [Decidable c] (h : Follows S Q m n) (h' : Follows S Q m' n') :
    Follows S Q (if c then m else m') (if c then n else n') := by
  split <;> assumption

theorem bind (h : Follows S Q m n) (hfg : ∀ b c, S b c → Follows T Q (f b) (g c)) :
    Follows T Q (m >>= f) (n >>= g) := by
  intro s d s' hd
  obtain ⟨b, s₁, hb, hd⟩ := bind_eq_ok.mp hd
  rcases h s b s₁ hb with ⟨c, hc, hbc⟩ | ⟨e, s₂, he, hQ⟩
  · rcases hfg b c hbc s₁ d s' hd with ⟨z, hz, hdz⟩ | ⟨e, s₂, he, hQ⟩
    · exact .inl ⟨z, bind_eq_ok.mpr ⟨c, s₁, hc, hz⟩, hdz⟩
    · exact .inr ⟨e, s₂, bind_eq_error.mpr (.inr ⟨c, s₁, hc, he⟩), hQ⟩
  · exact .inr ⟨e, s₂, bind_eq_error.mpr (.inl he), hQ⟩

end Follows

/-! ### Recorded arguments -/

section

variable {ξ : Type}

/-- The computation that also writes down the argument that it is for. -/
def recorded (f : ξ → EStateM ε σ β) (x : ξ) : EStateM ε (σ × List ξ) β := fun s =>
  match f x s.1 with
  | .ok b s' => .ok b (s', x :: s.2)
  | .error e s' => .error e (s', x :: s.2)

/-- The result with these arguments written down beside the state. -/
def withRecord (seen : List ξ) : EStateM.Result ε σ β → EStateM.Result ε (σ × List ξ) β
  | .ok b s => .ok b (s, seen)
  | .error e s => .error e (s, seen)

/-- The second state is the first one with arguments that all have the property. -/
def Recording (D : ξ → Prop) (s : σ) (t : σ × List ξ) : Prop := t.1 = s ∧ ∀ x ∈ t.2, D x

/-- Writing down the arguments, `recorded`, does not change what a function does. -/
theorem mirrors_recorded {D : ξ → Prop} {x : ξ} (hx : D x) (f : ξ → EStateM ε σ β) :
    Mirrors (Recording D) (f x) (recorded f x) := by
  rintro _ ⟨s, seen⟩ ⟨rfl, hseen⟩
  have hrecord : ∀ y ∈ x :: seen, D y := List.forall_mem_cons.mpr ⟨hx, hseen⟩
  unfold recorded
  cases f x s with
  | ok b s' => exact .ok b ⟨rfl, hrecord⟩
  | error e s' => exact .error e ⟨rfl, hrecord⟩

/-- A computation that mirrors another one in this way ends like it and has written down arguments
with the property only. -/
theorem Mirrors.exists_record {D : ξ → Prop} {m : EStateM ε σ β} {n : EStateM ε (σ × List ξ) β}
    (h : Mirrors (Recording D) m n) (s : σ) :
    ∃ seen, n (s, []) = withRecord seen (m s) ∧ ∀ x ∈ seen, D x := by
  have hends := h s (s, []) ⟨rfl, nofun⟩
  generalize m s = r at hends
  generalize n (s, []) = r' at hends
  cases hends with
  | @ok b _ t hleft =>
    obtain ⟨_, seen⟩ := t
    obtain ⟨rfl, hseen⟩ := hleft
    exact ⟨seen, rfl, hseen⟩
  | @error e _ t hleft =>
    obtain ⟨_, seen⟩ := t
    obtain ⟨rfl, hseen⟩ := hleft
    exact ⟨seen, rfl, hseen⟩

end

end Computation

end FluxBalance
