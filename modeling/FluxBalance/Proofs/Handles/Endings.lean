import FluxBalance.Proofs.Handles.Looking
import FluxBalance.Proofs.Handles.Table

/-!
# How operations on handles end

Nearly every operation looks first and writes last: once everything that may fail is done, it makes,
replaces or destroys at most one object, which does not fail. So an operation that fails has changed
nothing. There is one exception, which writes a guess before it has understood the bounds; and there
are few errors that are not reported. What a call can do is said once, as the relation `Ends`.

## Main definitions and results

* `Ends`: how an operation on handles can end;
* `LetThrough`, `HalfSpecified`: the two exceptions, failures that are not reported and a guess that
  has been set;
* `Ends.bind`, `ends_run`: every operation ends as `Ends` says, step by step.
-/

namespace FluxBalance

open FluxBalance.Computation Equation HandleAction

/-! ### What operations let through -/

namespace Operation

/-- The failures that are let through: that of a name that is no text, that of an equation that
calls an unknown function, and those of the two operations that work on no object. -/
inductive LetThrough (t : HandleTable) : Operation → List Argument → Error Float → Prop
  | constantName {ctx name value : Argument} (hname : ∀ s, name ≠ .text s) :
    LetThrough t addConstant [ctx, name, value] (.fault .notText)
  | variableName {target name guess lower upper : Argument} (hname : ∀ s, name ≠ .text s) :
    LetThrough t declareVariable [target, name, guess, lower, upper] (.fault .notText)
  | equation {equation ctx guess lower upper margin limit : Argument} {c : Context Float}
      {e : Expression Float} {f : String} (hc : constants ctx t = .ok c t)
      (he : Expression.ofText equation.equation c = .ok e) (hf : e.Calls f) :
    LetThrough t solveEquation [equation, ctx, guess, lower, upper, margin, limit]
      (.fault (.unknownFunction f))
  | system {target margin limit : Argument} {h : Nat} {s : ConstrainedSystem Float}
      {e : Expression Float} {f : String} (hs : HandleAction.system target t = .ok (h, s) t)
      (he : e ∈ s.equations) (hf : e.Calls f) :
    LetThrough t solveSystem [target, margin, limit] (.fault (.unknownFunction f))
  | block {block equation f : String} {ctx declared margin limit : Argument}
      (hequation : equation ∈ Pool.split block) (hf : CallsUnknown Float equation f) :
    LetThrough t solvePool [.text block, ctx, declared, margin, limit]
      (.fault (.unknownFunction f))
  | releaseText {args : List Argument} (hargs : args.length ≠ 1) :
    LetThrough t releaseText args (.fault .wrongType)
  | countHandles {args : List Argument} (hargs : args ≠ []) :
    LetThrough t countHandles args (.fault .wrongType)

/-- The guess of an unknown has been set although a bound cannot be converted. -/
inductive HalfSpecified (t : HandleTable) : List Argument → HandleTable → Prop
  | intro {target guess lower upper : Argument} {name : String} {h : Nat}
      {s : ConstrainedSystem Float} {g : Float}
      (hs : HandleAction.system target t = .ok (h, s) t) (hname : s.unknowns.contains name = true)
      (hordered : lower.exceeds upper = .ok false) (hguess : guess.number = .ok g)
      (hbound : ∃ f, lower.number = .error f ∨ upper.number = .error f) :
    HalfSpecified t [target, .text name, guess, lower, upper]
      (t.replace h (.system (s.changeSearch name fun search => { search with guess := g })))

/-- Whether a reply reports a failure. All codes of inversions do but one. -/
def signals : Operation → Reply → Bool
  | invert, .code n => n != InversionOutcome.success.code
  | op, r =>
    match op.failure?, r with
    | some (.code m), .code n => n == m
    | some (.real x), .real y => y == x
    | some .nothing, .nothing => true
    | _, _ => false

/-! ### How operations end -/

/-- How an operation that is called with the table can end. -/
inductive Ends (t : HandleTable) (op : Operation) (args : List Argument) :
    EStateM.Result (Error Float) HandleTable Reply → Prop
  /-- It fails and has changed nothing; the failure is reported. -/
  | failed {e : Error Float} : isReported e = true → Ends t op args (.error e t)
  /-- It fails and has changed nothing; the failure is `LetThrough`. -/
  | letThrough {e : Error Float} : LetThrough t op args e → Ends t op args (.error e t)
  /-- It fails and has set a guess. -/
  | halfway {e : Error Float} {t' : HandleTable} : op = specifyVariable → HalfSpecified t args t' →
    isReported e = true → Ends t op args (.error e t')
  /-- It changes nothing. -/
  | looked (r : Reply) : Ends t op args (.ok r t)
  /-- It makes an object and answers its handle. -/
  | created (x : HandledObject) : op.failure? = some (.code 0) →
    Ends t op args (.ok (.code t.next) (t.insert x))
  /-- It replaces an object and reports no failure. -/
  | changed {h : Nat} {x y : HandledObject} {r : Reply} : t.get? h = some y →
    op.signals r = false → Ends t op args (.ok r (t.replace h x))
  /-- It replaces an object by itself. -/
  | kept {h : Nat} {x : HandledObject} (r : Reply) : t.get? h = some x →
    Ends t op args (.ok r (t.replace h x))
  /-- It destroys an object and reports no failure. -/
  | destroyed {h : Nat} {x : HandledObject} {r : Reply} : t.get? h = some x →
    op.signals r = false → Ends t op args (.ok r (t.erase h))

section

variable {t : HandleTable} {op : Operation} {args : List Argument} {β : Type} {R : β → Prop}

/-- An operation that only `Looks` at the table leaves it as it is. -/
private theorem Ends.of_looks {R : Reply → Prop} {m : HandleAction Reply} (h : Looks t R m) :
    Ends t op args (m t) := by
  rcases h with ⟨r, hr, -⟩ | ⟨e, he, hreported⟩
  · rw [hr]
    exact .looked r
  · rw [he]
    exact .failed hreported

/-- **What looks first ends as what follows.** -/
theorem Ends.bind {m : HandleAction β} {f : β → HandleAction Reply} (hm : Looks t R m)
    (hf : ∀ b, R b → Ends t op args (f b t)) : Ends t op args ((m >>= f) t) := by
  rcases hm with ⟨b, hb, hr⟩ | ⟨e, he, hreported⟩
  · rw [bind_apply, hb]
    exact hf b hr
  · rw [bind_apply, he]
    exact .failed hreported

/-- An operation that ends with a new object inserts it. -/
private theorem ends_created (hop : op.failure? = some (.code 0)) (x : HandledObject) :
    Ends t op args (Operation.created x t) := .created x hop

/-- An operation that ends with a changed object replaces it. -/
private theorem ends_update {h : Nat} {y : HandledObject} (hy : t.get? h = some y)
    (x : HandledObject) {r : Reply} (hr : op.signals r = false) :
    Ends t op args ((do update h x; return r : HandleAction Reply) t) := .changed hy hr

/-- A call of `changeMatrix` ends as the change does, with the matrix replaced. -/
private theorem ends_changeMatrix {a : Argument}
    {f : DenseMatrix Float → HandleAction (DenseMatrix Float)} (hop : op.signals done = false)
    (hf : ∀ A, Looks t (fun _ => True) (f A)) :
    Ends t op args (changeMatrix a f t) :=
  .bind (looks_matrix a) fun p hp => .bind (hf p.2) fun _ _ => ends_update hp _ hop

private theorem ends_deriveMatrix {a : Argument}
    {f : DenseMatrix Float → HandleAction (DenseMatrix Float)} (hop : op.failure? = some (.code 0))
    (hf : ∀ A, Looks t (fun _ => True) (f A)) :
    Ends t op args (deriveMatrix a f t) :=
  .bind (looks_matrix a) fun p _ => .bind (hf p.2) fun _ _ => ends_created hop _

private theorem ends_destroy {kind : HandleKind} {a : Argument} (hop : op.signals done = false) :
    Ends t op args ((do destroy kind a; return done : HandleAction Reply) t) := by
  unfold destroy
  rw [bind_assoc]
  refine .bind (looks_find a) fun p hp => ?_
  dsimp only
  split
  · exact .destroyed hp hop
  · exact .failed rfl

/-! ### Matrices -/

/-- The matrix that an inversion leaves where it does not succeed is the one that was there. -/
private theorem eq_of_invertSquare {A B : DenseMatrix Float} {outcome : InversionOutcome}
    (h : A.invertSquare = (outcome, B)) (hfailed : outcome ≠ .success) : B = A := by
  unfold DenseMatrix.invertSquare at h
  dsimp only at h
  split at h
  · cases h
    exact absurd rfl hfailed
  split at h
  · cases h
    rfl
  split at h
  · split at h <;> cases h
    · rfl
    · exact absurd rfl hfailed
  split at h
  · cases h
    rfl
  split at h
  · cases h
    rfl
  split at h <;> cases h
  · exact absurd rfl hfailed
  · rfl

/-- Inverting replaces the matrix, and the outcome is the reply. -/
private theorem ends_invert (a : Argument) : Ends t invert [a] (runMatrix invert [a] t) := by
  refine .bind (looks_matrix a) fun ⟨h, A⟩ hA => .bind (looks_fitting _) fun ⟨outcome, B⟩ hr => ?_
  by_cases hsuccess : outcome = .success
  · subst hsuccess
    exact ends_update hA _ rfl
  · unfold DenseMatrix.tryInvert at hr
    split at hr
    · rw [eq_of_invertSquare (Except.ok.inj hr) hsuccess]
      exact .kept _ hA
    · cases hr

/-- Every operation on matrices `Ends` in one of the ways listed. -/
private theorem ends_runMatrix (op : Operation) (args : List Argument) :
    Ends t op args (runMatrix op args t) := by
  -- One case for each operation; in each of them the arguments are looked at in the order in which
  -- the operation looks at them.
  unfold runMatrix
  split
  case h_1 rows cols =>
    exact .bind (looks_index rows) fun _ _ => .bind (looks_index cols) fun _ _ =>
      .bind (looks_fitted _) fun _ _ => ends_created rfl _
  case h_2 size =>
    exact .bind (looks_index size) fun _ _ => .bind (looks_fitted _) fun _ _ =>
      ends_created rfl _
  case h_3 m => exact ends_deriveMatrix rfl fun _ => .pure trivial
  case h_4 m => exact ends_destroy rfl
  case h_5 m row col =>
    exact .of_looks (R := fun _ => True) <| (looks_matrix m).bind fun _ _ =>
      (looks_index row).bind fun _ _ => (looks_index col).bind fun _ _ =>
        (looks_fitted _).bind fun _ _ => .pure trivial
  case h_6 m row col value =>
    exact ends_changeMatrix rfl fun _ => (looks_index row).bind fun _ _ =>
      (looks_index col).bind fun _ _ => (looks_fitted _).bind fun _ _ =>
        (looks_understood value.errsBy_entry).bind fun _ _ => looks_fitted _
  case h_7 m r1 r2 =>
    exact ends_changeMatrix rfl fun _ => (looks_index r1).bind fun _ _ =>
      (looks_index r2).bind fun _ _ => looks_fitted _
  case h_8 m row s =>
    exact ends_changeMatrix rfl fun _ => (looks_index row).bind fun _ _ =>
      (looks_factor s).bind fun _ _ => looks_fitted _
  case h_9 m s =>
    exact ends_changeMatrix rfl fun _ => (looks_factor s).bind fun _ _ => .pure trivial
  case h_10 m r1 r2 =>
    exact ends_changeMatrix rfl fun _ => (looks_index r1).bind fun _ _ =>
      (looks_index r2).bind fun _ _ => looks_fitted _
  case h_11 m r1 r2 s =>
    exact ends_changeMatrix rfl fun _ => (looks_index r1).bind fun _ _ =>
      (looks_index r2).bind fun _ _ => (looks_factor s).bind fun _ _ => looks_fitted _
  case h_12 a b =>
    exact ends_deriveMatrix rfl fun _ => (looks_matrix b).bind fun _ _ => looks_fitted _
  case h_13 a b =>
    exact ends_deriveMatrix rfl fun _ => (looks_matrix b).bind fun _ _ => looks_fitted _
  case h_14 m r1 c1 r2 c2 =>
    exact ends_deriveMatrix rfl fun _ => (looks_index r1).bind fun _ _ =>
      (looks_index c1).bind fun _ _ => (looks_index r2).bind fun _ _ =>
        (looks_index c2).bind fun _ _ => looks_fitted _
  case h_15 m =>
    exact .of_looks (R := fun _ => True) <| (looks_matrix m).bind fun _ _ => .pure trivial
  case h_16 m => exact ends_deriveMatrix rfl fun _ => .pure trivial
  case h_17 m => exact ends_invert m
  case h_18 => exact .failed rfl

/-! ### Contexts and single equations -/

/-- A name is looked at before anything else; if it is no text, that is `LetThrough`. -/
private theorem ends_nameIn {name : Argument} {f : String → HandleAction Reply}
    (hname : (∀ s, name ≠ .text s) → LetThrough t op args (.fault .notText))
    (hf : ∀ n, Ends t op args (f n t)) : Ends t op args ((nameIn name >>= f) t) := by
  have hother (h : ∀ s, name ≠ .text s) : nameIn name = throw (.fault .notText) := by
    cases name with
    | text s => exact absurd rfl (h s)
    | _ => rfl
  by_cases h : ∀ s, name ≠ .text s
  · rw [hother h]
    exact .letThrough (hname h)
  · simp only [not_forall, not_not] at h
    obtain ⟨s, rfl⟩ := h
    unfold nameIn
    dsimp only
    split
    · exact hf s
    · exact .failed rfl

/-- A result of solving equations is a reply, unless it is an error of equations. -/
private theorem ends_computed {K : String → Prop} {x : Except (Error Float) β} {f : β → Reply}
    (hx : ErrsBy (EquationError K) x)
    (hK : ∀ g, K g → LetThrough t op args (.fault (.unknownFunction g))) :
    Ends t op args ((do return f (← computed x) : HandleAction Reply) t) := by
  cases x with
  | ok b => exact .looked _
  | error e =>
    rcases (hx e rfl).reported with hreported | ⟨g, hg, rfl⟩
    · exact .failed hreported
    · exact .letThrough (hK g hg)

/-- Solving an equation leaves the table alone, and only an unknown function is let through. -/
private theorem ends_solveOne (equation ctx guess lower upper margin limit : Argument) :
    Ends t solveEquation [equation, ctx, guess, lower, upper, margin, limit]
      (solveOne equation ctx guess lower upper margin limit t) := by
  refine .bind (looks_constants ctx).of_result fun c hc => ?_
  refine .bind (looks_index limit) fun n _ => .bind (looks_number guess) fun g _ => ?_
  refine .bind (looks_understood (lower.errsBy_exceeds upper)) fun exceeds _ => ?_
  split
  · exact .failed rfl
  refine .bind (looks_understood (errsBy_boundOf lower false)) fun lo _ => ?_
  refine .bind (looks_understood (errsBy_boundOf upper true)) fun hi _ => ?_
  exact ends_computed (equationError_of_solveEquation (K := fun f => ∃ e,
      Expression.ofText equation.equation c = .ok e ∧ e.Calls f)
    (fun {e} he f hf => ⟨e, he, hf⟩) ⟨g, lo, hi⟩ margin.margin n)
    fun f ⟨e, he, hf⟩ => .equation hc he hf

/-- Every operation on contexts `Ends` in one of the ways listed. -/
private theorem ends_runContext (op : Operation) (args : List Argument) :
    Ends t op args (runContext op args t) := by
  unfold runContext
  split
  case h_1 => exact ends_created rfl _
  case h_2 => exact ends_created rfl _
  case h_3 ctx name value =>
    exact ends_nameIn .constantName fun n => .bind (looks_number value) fun x _ =>
      .bind (looks_context ctx) fun p hp => ends_update hp _ rfl
  case h_4 ctx => exact ends_destroy rfl
  case h_5 equation ctx guess lower upper margin limit =>
    exact ends_solveOne equation ctx guess lower upper margin limit
  case h_6 => exact .failed rfl

/-! ### Builders and systems -/

/-- The code of an attempt signals a failure only if there are too many equations. -/
private theorem signals_constrain {status : ConstraintStatus} (h : status ≠ .tooMany) :
    constrain.signals (.code status.code) = false := by
  cases status with
  | tooMany => exact absurd rfl h
  | tooFew => rfl
  | constrained => rfl

/-- An attempt at a builder replaces it, or keeps it and signals the rejection. -/
private theorem ends_constrain (target equation : Argument) :
    Ends t constrain [target, equation] (runSystem constrain [target, equation] t) := by
  refine .bind (looks_builder target) fun ⟨h, b⟩ hb => ?_
  refine .bind (looks_computed (SystemBuilder.errsBy_tryConstrain (equationError_of_ofText _ _)))
    fun ⟨status, b'⟩ hr => ?_
  rcases SystemBuilder.tryConstrain_eq_ok hr with ⟨rfl, rfl, -⟩ | ⟨e, -, rfl, rfl, hle⟩
  · exact .kept _ hb
  · -- An attempt that is not rejected does not make the equations too many.
    have hstatus : (⟨b.context, b.equations ++ [e]⟩ : SystemBuilder Float).status ≠ .tooMany := by
      intro hmany
      have hlt := ConstraintStatus.ofCounts_eq_tooMany.mp hmany
      rw [List.length_append, List.length_singleton] at hlt
      exact absurd hle (Nat.not_le_of_lt hlt)
    exact ends_update hb _ (signals_constrain hstatus)

/-- Specifying an unknown replaces the system, refuses, or stops halfway, `HalfSpecified`. -/
private theorem ends_specify (target name guess lower upper : Argument) :
    Ends t specifyVariable [target, name, guess, lower, upper]
      (specify target name guess lower upper t) := by
  obtain ⟨⟨h, s⟩, hs, hget⟩ | ⟨e, he, hreported⟩ := looks_system (t := t) target
  swap
  · rw [specify, bind_apply, he]
    exact .failed hreported
  rw [specify, bind_apply, hs]
  dsimp only
  split
  swap
  · exact .looked _
  rename_i n
  split
  · exact .looked _
  rename_i hname
  refine .bind (looks_understood (lower.errsBy_exceeds upper)) fun exceeds hexceeds => ?_
  split
  · exact .looked _
  rename_i hordered
  refine .bind (looks_understood guess.errsBy_number) fun g hguess => ?_
  have hhalf {f : Fault} (hf : lower.number = .error f ∨ upper.number = .error f) :
      HalfSpecified t [target, .text n, guess, lower, upper]
        (t.replace h (.system (s.changeSearch n fun search => { search with guess := g }))) :=
    .intro hs (by simpa using hname) (by simpa [hordered] using hexceeds) hguess ⟨f, hf⟩
  have hrefused {a : Argument} {f : Fault} (hf : a.number = .error f) :
      isReported (.fault f) = true := by
    cases a.errsBy_number f hf <;> rfl
  -- The guess has been written by now, and the bounds are converted one after the other.
  cases hlo : lower.number with
  | error f => exact .halfway rfl (hhalf (.inl hlo)) (hrefused hlo)
  | ok lo =>
    cases hhi : upper.number with
    | error f => exact .halfway rfl (hhalf (.inr hhi)) (hrefused hhi)
    | ok hi =>
      -- What has been written in two steps might have been written in one.
      change Ends t specifyVariable [target, .text n, guess, lower, upper]
        (.ok done ((t.replace h (.system (s.changeSearch n fun search =>
          { search with guess := g }))).replace h (.system ((s.changeSearch n fun search =>
            { search with guess := g }).changeSearch n fun search =>
              { search with bounds := (lo, hi) }))))
      rw [HandleTable.replace_replace]
      exact .changed hget rfl

/-- Every operation on builders and systems `Ends` in one of the ways listed. -/
private theorem ends_runSystem (op : Operation) (args : List Argument) :
    Ends t op args (runSystem op args t) := by
  unfold runSystem
  split
  case h_1 equation ctx =>
    exact .bind (looks_constants ctx) fun c _ =>
      .bind (looks_computed (SystemBuilder.errsBy_new (fun _ _ => .constraint _)
        (equationError_of_ofText _ c))) fun _ _ => ends_created rfl _
  case h_2 target equation => exact ends_constrain target equation
  case h_3 target => exact .bind (looks_builder target) fun _ _ => .looked _
  case h_4 target =>
    exact .bind (looks_builder target) fun p _ =>
      .bind (looks_computed (SystemBuilder.errsBy_build (fun _ _ _ _ => .constraint _) _))
        fun _ _ => ends_created rfl _
  case h_5 target => exact ends_destroy rfl
  case h_6 target => exact .bind (looks_builder target) fun _ _ => .looked _
  case h_7 target name guess lower upper => exact ends_specify target name guess lower upper
  case h_8 target margin limit =>
    refine .bind (looks_system target).of_result fun ⟨h, s⟩ hs =>
      .bind (looks_index limit) fun n _ => ?_
    have hsolve := ConstrainedSystem.errsBy_solve (s := s)
      (K := fun f => ∃ e ∈ s.equations, e.Calls f) (fun e he f hf => ⟨e, he, hf⟩) margin.margin n
    exact ends_computed (hsolve.mono fun _ => .solving) fun f ⟨e, he, hf⟩ => .system hs he hf
  case h_9 target => exact ends_destroy rfl
  case h_10 => exact .failed rfl

/-! ### Pools -/

/-- Solving a block leaves the table alone, and only an unknown function or a block that is no text
is let through. -/
private theorem ends_solveBlock (block ctx declared margin limit : Argument) :
    Ends t solvePool [block, ctx, declared, margin, limit]
      (solveBlock block ctx declared margin limit t) := by
  refine .bind (looks_declarations declared) fun d _ => .bind (looks_constants ctx) fun c _ =>
    .bind (looks_index limit) fun n _ => ?_
  split
  · rename_i text
    exact ends_computed (Pool.errsBy_solve (K := fun f => ∃ e ∈ Pool.split text,
        CallsUnknown Float e f) fun e he f hf => ⟨e, he, hf⟩)
      fun f ⟨e, he, hf⟩ => .block he hf
  · exact .failed rfl

/-- Every operation on pools `Ends` in one of the ways listed. -/
private theorem ends_runPool (op : Operation) (args : List Argument) :
    Ends t op args (runPool op args t) := by
  unfold runPool
  split
  case h_1 => exact ends_created rfl _
  case h_2 target name guess lower upper =>
    exact ends_nameIn .variableName fun n => .bind (looks_number guess) fun g _ =>
      .bind (looks_number lower) fun lo _ => .bind (looks_number upper) fun hi _ =>
        .bind (looks_declared target) fun p hp => ends_update hp _ rfl
  case h_3 target => exact ends_destroy rfl
  case h_4 block ctx declared margin limit => exact ends_solveBlock block ctx declared margin limit
  case h_5 => exact .failed rfl

/-! ### All operations -/

/-- **How every operation ends.** -/
theorem ends_run (t : HandleTable) (op : Operation) (args : List Argument) :
    Ends t op args (op.run args t) := by
  unfold run
  split
  all_goals first
    | exact ends_runMatrix _ args
    | exact ends_runContext _ args
    | exact ends_runSystem _ args
    | exact ends_runPool _ args
    | skip
  · split
    · exact .looked _
    · rename_i hargs
      exact .letThrough (.releaseText fun h => hargs _ (List.length_eq_one_iff.mp h).choose_spec)
  · split
    · exact .looked _
    · rename_i hargs
      exact .letThrough (.countHandles hargs)

end

end Operation

end FluxBalance
