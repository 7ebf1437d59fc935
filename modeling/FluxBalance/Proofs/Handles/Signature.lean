import FluxBalance.Proofs.Handles.Looking
import FluxBalance.Proofs.Handles.Table

/-!
# What operations do to objects

Each operation has a signature: which of its arguments are handles of which kinds of objects, and
what it does to objects. It makes one, changes the one behind its first argument, destroys that one,
or does nothing to any object. The relation `Conforms` says that an operation keeps to its
signature, and the main statement that all of them do, whatever they are called with.

An operation looks first, and looking leaves the table alone; so the relation is closed under binds,
and what has been found on the way says that the arguments are those of the signature.

## Main definitions and results

* `roles`, `effect`: the signature of an operation;
* `Conforms`, `conforms_run`: an operation keeps to its signature, and all of them do.
-/

namespace FluxBalance

open FluxBalance.Computation HandleAction

/-! ### Arguments that are handles -/

/-- What is expected of an argument. -/
inductive Role where
  /-- The handle of an object of the kind. -/
  | object (kind : HandleKind)
  /-- The handle of an object of the kind, or the one that stands for no object. -/
  | optional (kind : HandleKind)
  /-- No handle. -/
  | value

/-- The argument is the handle of a live object of the kind. -/
structure Stands (t : HandleTable) (kind : HandleKind) (a : Argument) (h : Nat)
    (x : HandledObject) : Prop where
  handle : a.handle? = some h
  live : t.get? h = some x
  kind_eq : x.kind = kind

/-- The argument is as expected. -/
def Role.Admits (t : HandleTable) : Role → Argument → Prop
  | object kind, a => ∃ h x, Stands t kind a h x
  | optional kind, a => a.isNull = true ∨ ∃ h x, Stands t kind a h x
  | value, _ => True

/-- There are as many arguments as expected, and each of them is as expected. -/
def Fits (t : HandleTable) : List Role → List Argument → Prop
  | [], [] => True
  | r :: rs, a :: as => r.Admits t a ∧ Fits t rs as
  | _, _ => False

section

variable {t : HandleTable}

/-- An argument that `matrix` understands stands for a matrix. -/
private theorem stands_matrix (a : Argument) :
    Looks t (fun p => Stands t .matrix a p.1 (.matrix p.2)) (matrix a) :=
  (looks_found a).bind fun ⟨h, x⟩ hx => by
    cases x <;> first | exact .pure ⟨hx.1, hx.2, rfl⟩ | exact .throw rfl

/-- An argument that `context` understands stands for a context. -/
private theorem stands_context (a : Argument) :
    Looks t (fun p => Stands t .context a p.1 (.context p.2)) (context a) :=
  (looks_found a).bind fun ⟨h, x⟩ hx => by
    cases x <;> first | exact .pure ⟨hx.1, hx.2, rfl⟩ | exact .throw rfl

/-- An argument that `HandleAction.declared` understands stands for declared unknowns. -/
private theorem stands_declared (a : Argument) :
    Looks t (fun p => Stands t .declared a p.1 (.declared p.2)) (HandleAction.declared a) :=
  (looks_found a).bind fun ⟨h, x⟩ hx => by
    cases x <;> first | exact .pure ⟨hx.1, hx.2, rfl⟩ | exact .throw rfl

/-- An argument that `builder` understands stands for a builder. -/
private theorem stands_builder (a : Argument) :
    Looks t (fun p => Stands t .builder a p.1 (.builder p.2)) (builder a) :=
  (looks_found a).bind fun ⟨h, x⟩ hx => by
    cases x <;> first | exact .pure ⟨hx.1, hx.2, rfl⟩ | exact .throw rfl

/-- An argument that `system` understands stands for a system. -/
private theorem stands_system (a : Argument) :
    Looks t (fun p => Stands t .system a p.1 (.system p.2)) (system a) :=
  (looks_found a).bind fun ⟨h, x⟩ hx => by
    cases x <;> first | exact .pure ⟨hx.1, hx.2, rfl⟩ | exact .throw rfl

/-- Reading `constants` understands what the role of an optional context admits. -/
private theorem admits_constants (a : Argument) :
    Looks t (fun _ => (Role.optional .context).Admits t a) (constants a) := by
  unfold constants
  split
  · rename_i hnull
    exact .pure (.inl hnull)
  · exact (stands_context a).bind fun p hp => .pure (.inr ⟨p.1, _, hp⟩)

/-- Reading `declarations` understands what the role of optional declared unknowns admits. -/
private theorem admits_declarations (a : Argument) :
    Looks t (fun _ => (Role.optional .declared).Admits t a) (declarations a) := by
  unfold declarations
  split
  · rename_i hnull
    exact .pure (.inl hnull)
  · exact (stands_declared a).bind fun p hp => .pure (.inr ⟨p.1, _, hp⟩)

end

namespace Operation

/-! ### Signatures -/

/-- What is expected of the arguments. -/
def roles : Operation → List Role
  | newContext | newUsualContext | newDeclared | countHandles => []
  | newIdentity | releaseText => [.value]
  | newMatrix => [.value, .value]
  | cloneMatrix | freeMatrix | trace | transpose | invert => [.object .matrix]
  | scaleMatrix => [.object .matrix, .value]
  | readEntry | swapRows | scaleRow | addRow => [.object .matrix, .value, .value]
  | writeEntry | addScaledRow => [.object .matrix, .value, .value, .value]
  | subset => [.object .matrix, .value, .value, .value, .value]
  | multiply | augment => [.object .matrix, .object .matrix]
  | freeContext => [.object .context]
  | addConstant => [.object .context, .value, .value]
  | solveEquation => [.value, .optional .context, .value, .value, .value, .value, .value]
  | newBuilder => [.value, .optional .context]
  | constrain => [.object .builder, .value]
  | constraintStatus | buildSystem | freeBuilder | showBuilder => [.object .builder]
  | specifyVariable => [.object .system, .value, .value, .value, .value]
  | solveSystem => [.object .system, .value, .value]
  | freeSystem => [.object .system]
  | declareVariable => [.object .declared, .value, .value, .value, .value]
  | freeDeclared => [.object .declared]
  | solvePool => [.value, .optional .context, .optional .declared, .value, .value]

/-- What an operation does to objects. -/
inductive Effect where
  /-- It does nothing to them. -/
  | nothing
  /-- It makes an object of the kind and answers its handle. -/
  | makes (kind : HandleKind)
  /-- It may change the object behind its first argument, which is of the kind. -/
  | changes (kind : HandleKind)
  /-- It destroys the object behind its only argument, which is of the kind. -/
  | destroys (kind : HandleKind)
  deriving DecidableEq

def effect : Operation → Effect
  | newMatrix | newIdentity | cloneMatrix | multiply | augment | subset | transpose =>
    .makes .matrix
  | newContext | newUsualContext => .makes .context
  | newDeclared => .makes .declared
  | newBuilder => .makes .builder
  | buildSystem => .makes .system
  | writeEntry | swapRows | scaleRow | scaleMatrix | addRow | addScaledRow | invert =>
    .changes .matrix
  | addConstant => .changes .context
  | constrain => .changes .builder
  | specifyVariable => .changes .system
  | declareVariable => .changes .declared
  | freeMatrix => .destroys .matrix
  | freeContext => .destroys .context
  | freeBuilder => .destroys .builder
  | freeSystem => .destroys .system
  | freeDeclared => .destroys .declared
  | readEntry | trace | solveEquation | constraintStatus | showBuilder | solveSystem | solvePool
  | releaseText | countHandles => .nothing

/-- How an operation that keeps to its signature can end. -/
inductive Conforms (t : HandleTable) (op : Operation) (args : List Argument) :
    EStateM.Result (Error Float) HandleTable Reply → Prop
  /-- It fails, which is reported. -/
  | refused {e : Error Float} : isReported e = true → Conforms t op args (.error e t)
  /-- It computes something and fails; the arguments have been as expected. -/
  | failed {e : Error Float} : Fits t op.roles args → op.effect = .nothing →
    Conforms t op args (.error e t)
  /-- It fails at a name that is no text. -/
  | misnamed {name : Argument} : op = addConstant ∨ op = declareVariable → args[1]? = some name →
    (∀ s, name ≠ .text s) → Conforms t op args (.error (.fault .notText) t)
  /-- It works on no object and fails. -/
  | unguarded {e : Error Float} : op.failure? = none → Conforms t op args (.error e t)
  /-- It fails, which is reported, after it has changed the object that it changes. -/
  | halfway {a : Argument} {kind : HandleKind} {h : Nat} {x y : HandledObject} {e : Error Float} :
    Fits t op.roles args → args.head? = some a → Stands t kind a h x →
    op.effect = .changes kind → y.kind = kind → isReported e = true →
    Conforms t op args (.error e (t.replace h y))
  /-- It succeeds and has changed nothing. -/
  | looked {r : Reply} : Fits t op.roles args →
    op.effect = .nothing ∨ (∃ kind, op.effect = .changes kind) → Conforms t op args (.ok r t)
  /-- It has made an object. -/
  | made {kind : HandleKind} {x : HandledObject} : Fits t op.roles args →
    op.effect = .makes kind → x.kind = kind → Conforms t op args (.ok (.code t.next) (t.insert x))
  /-- It has changed an object. -/
  | changed {a : Argument} {kind : HandleKind} {h : Nat} {x y : HandledObject} {r : Reply} :
    Fits t op.roles args → args.head? = some a → Stands t kind a h x →
    op.effect = .changes kind → y.kind = kind → Conforms t op args (.ok r (t.replace h y))
  /-- It has destroyed an object. -/
  | destroyed {a : Argument} {kind : HandleKind} {h : Nat} {x : HandledObject} : args = [a] →
    op.roles = [.object kind] → Stands t kind a h x → op.effect = .destroys kind →
    Conforms t op args (.ok done (t.erase h))

section

variable {t : HandleTable} {op : Operation} {args : List Argument} {β : Type} {R : β → Prop}

/-- **What looks first `Conforms` if what follows does.** -/
theorem Conforms.bind {m : HandleAction β} {f : β → HandleAction Reply} (hm : Looks t R m)
    (hf : ∀ b, R b → Conforms t op args (f b t)) : Conforms t op args ((m >>= f) t) := by
  rcases hm with ⟨b, hb, hr⟩ | ⟨e, he, hreported⟩
  · rw [bind_apply, hb]
    exact hf b hr
  · rw [bind_apply, he]
    exact .refused hreported

/-- An operation that makes an object of its kind `Conforms`. -/
private theorem conforms_created {x : HandledObject} (hfits : Fits t op.roles args)
    (hop : op.effect = .makes x.kind) : Conforms t op args (created x t) := .made hfits hop rfl

/-- An operation that changes the object behind its first argument `Conforms`. -/
private theorem conforms_update {a : Argument} {kind : HandleKind} {h : Nat} {x y : HandledObject}
    {r : Reply} (hfits : Fits t op.roles args) (ha : args.head? = some a)
    (hx : Stands t kind a h x) (hop : op.effect = .changes kind) (hy : y.kind = kind) :
    Conforms t op args ((do update h y; return r : HandleAction Reply) t) :=
  .changed hfits ha hx hop hy

/-- A call of `changeMatrix` conforms if the change only looks at the table. -/
private theorem conforms_changeMatrix {a : Argument}
    {f : DenseMatrix Float → HandleAction (DenseMatrix Float)} {S : Prop}
    (ha : args.head? = some a) (hop : op.effect = .changes .matrix)
    (hfits : (Role.object .matrix).Admits t a → S → Fits t op.roles args)
    (hf : ∀ A, Looks t (fun _ => S) (f A)) : Conforms t op args (changeMatrix a f t) :=
  .bind (stands_matrix a) fun p hp => .bind (hf p.2) fun _ hs =>
    conforms_update (hfits ⟨p.1, _, hp⟩ hs) ha hp hop rfl

private theorem conforms_deriveMatrix {a : Argument}
    {f : DenseMatrix Float → HandleAction (DenseMatrix Float)} {S : Prop}
    (hop : op.effect = .makes .matrix)
    (hfits : (Role.object .matrix).Admits t a → S → Fits t op.roles args)
    (hf : ∀ A, Looks t (fun _ => S) (f A)) : Conforms t op args (deriveMatrix a f t) :=
  .bind (stands_matrix a) fun p hp => .bind (hf p.2) fun _ hs =>
    conforms_created (hfits ⟨p.1, _, hp⟩ hs) hop

private theorem conforms_destroy {kind : HandleKind} {a : Argument}
    (hroles : op.roles = [.object kind]) (hop : op.effect = .destroys kind) :
    Conforms t op [a] ((do destroy kind a; return done : HandleAction Reply) t) := by
  unfold destroy
  rw [bind_assoc]
  refine .bind (looks_found a) fun p hp => ?_
  dsimp only
  split
  · rename_i hkind
    subst hkind
    exact .destroyed rfl hroles ⟨hp.1, hp.2, rfl⟩ hop
  · exact .refused rfl

/-! ### Matrices -/

/-- Every operation on matrices `Conforms` to its signature. -/
private theorem conforms_runMatrix (op : Operation) (args : List Argument) :
    Conforms t op args (runMatrix op args t) := by
  -- One case for each operation; the roles of its arguments are what it looks at, in that order.
  unfold runMatrix
  split
  case h_1 rows cols =>
    exact .bind (looks_index rows) fun _ _ => .bind (looks_index cols) fun _ _ =>
      .bind (looks_fitted _) fun _ _ => conforms_created ⟨trivial, trivial, trivial⟩ rfl
  case h_2 size =>
    exact .bind (looks_index size) fun _ _ => .bind (looks_fitted _) fun _ _ =>
      conforms_created ⟨trivial, trivial⟩ rfl
  case h_3 m => exact conforms_deriveMatrix rfl (fun hm _ => ⟨hm, trivial⟩) fun _ => .pure trivial
  case h_4 m => exact conforms_destroy rfl rfl
  case h_5 m row col =>
    exact .bind (stands_matrix m) fun p hp => .bind (looks_index row) fun _ _ =>
      .bind (looks_index col) fun _ _ => .bind (looks_fitted _) fun _ _ =>
        .looked ⟨⟨p.1, _, hp⟩, trivial, trivial, trivial⟩ (.inl rfl)
  case h_6 m row col value =>
    exact conforms_changeMatrix rfl rfl (fun hm _ => ⟨hm, trivial, trivial, trivial, trivial⟩)
      fun _ => (looks_index row).bind fun _ _ => (looks_index col).bind fun _ _ =>
        (looks_fitted _).bind fun _ _ =>
          (looks_understood value.errsBy_entry).bind fun _ _ => looks_fitted _
  case h_7 m r1 r2 =>
    exact conforms_changeMatrix rfl rfl (fun hm _ => ⟨hm, trivial, trivial, trivial⟩) fun _ =>
      (looks_index r1).bind fun _ _ => (looks_index r2).bind fun _ _ => looks_fitted _
  case h_8 m row s =>
    exact conforms_changeMatrix rfl rfl (fun hm _ => ⟨hm, trivial, trivial, trivial⟩) fun _ =>
      (looks_index row).bind fun _ _ => (looks_factor s).bind fun _ _ => looks_fitted _
  case h_9 m s =>
    exact conforms_changeMatrix rfl rfl (fun hm _ => ⟨hm, trivial, trivial⟩) fun _ =>
      (looks_factor s).bind fun _ _ => .pure trivial
  case h_10 m r1 r2 =>
    exact conforms_changeMatrix rfl rfl (fun hm _ => ⟨hm, trivial, trivial, trivial⟩) fun _ =>
      (looks_index r1).bind fun _ _ => (looks_index r2).bind fun _ _ => looks_fitted _
  case h_11 m r1 r2 s =>
    exact conforms_changeMatrix rfl rfl (fun hm _ => ⟨hm, trivial, trivial, trivial, trivial⟩)
      fun _ => (looks_index r1).bind fun _ _ => (looks_index r2).bind fun _ _ =>
        (looks_factor s).bind fun _ _ => looks_fitted _
  case h_12 a b =>
    exact conforms_deriveMatrix rfl (fun ha hb => ⟨ha, hb, trivial⟩) fun _ =>
      (stands_matrix b).bind fun p hp =>
        (looks_fitted _).mono fun _ _ => (⟨p.1, _, hp⟩ : (Role.object .matrix).Admits t b)
  case h_13 a b =>
    exact conforms_deriveMatrix rfl (fun ha hb => ⟨ha, hb, trivial⟩) fun _ =>
      (stands_matrix b).bind fun p hp =>
        (looks_fitted _).mono fun _ _ => (⟨p.1, _, hp⟩ : (Role.object .matrix).Admits t b)
  case h_14 m r1 c1 r2 c2 =>
    exact conforms_deriveMatrix rfl
      (fun hm _ => ⟨hm, trivial, trivial, trivial, trivial, trivial⟩) fun _ =>
        (looks_index r1).bind fun _ _ => (looks_index c1).bind fun _ _ =>
          (looks_index r2).bind fun _ _ => (looks_index c2).bind fun _ _ => looks_fitted _
  case h_15 m =>
    exact .bind (stands_matrix m) fun p hp => .looked ⟨⟨p.1, _, hp⟩, trivial⟩ (.inl rfl)
  case h_16 m => exact conforms_deriveMatrix rfl (fun hm _ => ⟨hm, trivial⟩) fun _ => .pure trivial
  case h_17 m =>
    exact .bind (stands_matrix m) fun p hp => .bind (looks_fitted _) fun _ _ =>
      conforms_update ⟨⟨p.1, _, hp⟩, trivial⟩ rfl hp rfl rfl
  case h_18 => exact .refused rfl

/-! ### Contexts and single equations -/

/-- A name is looked at before anything else. -/
private theorem conforms_nameIn {name : Argument} {f : String → HandleAction Reply}
    (hop : op = addConstant ∨ op = declareVariable) (hname : args[1]? = some name)
    (hf : ∀ n, Conforms t op args (f n t)) : Conforms t op args ((nameIn name >>= f) t) := by
  cases name with
  | text s =>
    unfold nameIn
    dsimp only
    split
    · exact hf s
    · exact .refused rfl
  | _ => exact .misnamed hop hname nofun

/-- What is computed in the end may fail in any way. -/
private theorem conforms_computed {x : Except (Error Float) β} {f : β → Reply}
    (hfits : Fits t op.roles args) (hop : op.effect = .nothing) :
    Conforms t op args ((do return f (← computed x) : HandleAction Reply) t) := by
  cases x with
  | ok b => exact .looked hfits (.inl hop)
  | error e => exact .failed hfits hop

/-- Every operation on contexts `Conforms` to its signature. -/
private theorem conforms_runContext (op : Operation) (args : List Argument) :
    Conforms t op args (runContext op args t) := by
  unfold runContext
  split
  case h_1 => exact conforms_created trivial rfl
  case h_2 => exact conforms_created trivial rfl
  case h_3 ctx name value =>
    exact conforms_nameIn (.inl rfl) rfl fun n => .bind (looks_number value) fun x _ =>
      .bind (stands_context ctx) fun p hp =>
        conforms_update ⟨⟨p.1, _, hp⟩, trivial, trivial, trivial⟩ rfl hp rfl rfl
  case h_4 ctx => exact conforms_destroy rfl rfl
  case h_5 equation ctx guess lower upper margin limit =>
    refine .bind (admits_constants ctx) fun c hc => ?_
    refine .bind (looks_index limit) fun n _ => .bind (looks_number guess) fun g _ => ?_
    refine .bind (looks_understood (lower.errsBy_exceeds upper)) fun exceeds _ => ?_
    split
    · exact .refused rfl
    refine .bind (looks_understood (errsBy_boundOf lower false)) fun lo _ => ?_
    refine .bind (looks_understood (errsBy_boundOf upper true)) fun hi _ => ?_
    exact conforms_computed
      ⟨trivial, hc, trivial, trivial, trivial, trivial, trivial, trivial⟩ rfl
  case h_6 => exact .refused rfl

/-! ### Builders and systems -/

/-- Specifying an unknown `Conforms` to its signature, also where it stops halfway. -/
private theorem conforms_specify (target name guess lower upper : Argument) :
    Conforms t specifyVariable [target, name, guess, lower, upper]
      (specify target name guess lower upper t) := by
  refine .bind (stands_system target) fun ⟨h, s⟩ hs => ?_
  have hfits : Fits t specifyVariable.roles [target, name, guess, lower, upper] :=
    ⟨⟨h, _, hs⟩, trivial, trivial, trivial, trivial, trivial⟩
  have hlooked : Conforms t specifyVariable [target, name, guess, lower, upper]
      (.ok (.code 0) t) := .looked hfits (.inr ⟨_, rfl⟩)
  dsimp only
  split
  swap
  · exact hlooked
  rename_i n
  split
  · exact hlooked
  refine .bind (looks_understood (lower.errsBy_exceeds upper)) fun exceeds hexceeds => ?_
  split
  · exact hlooked
  refine .bind (looks_understood guess.errsBy_number) fun g hguess => ?_
  have hrefused {a : Argument} {f : Fault} (hf : a.number = .error f) :
      isReported (.fault f) = true := by
    cases a.errsBy_number f hf <;> rfl
  -- The guess has been written by now, and the bounds are converted one after the other.
  cases hlo : lower.number with
  | error f => exact .halfway hfits rfl hs rfl rfl (hrefused hlo)
  | ok lo =>
    cases hhi : upper.number with
    | error f => exact .halfway hfits rfl hs rfl rfl (hrefused hhi)
    | ok hi =>
      change Conforms t specifyVariable [target, .text n, guess, lower, upper]
        (.ok done ((t.replace h (.system (s.changeSearch n fun search =>
          { search with guess := g }))).replace h (.system ((s.changeSearch n fun search =>
            { search with guess := g }).changeSearch n fun search =>
              { search with bounds := (lo, hi) }))))
      rw [HandleTable.replace_replace]
      exact .changed hfits rfl hs rfl rfl

/-- Every operation on builders and systems `Conforms` to its signature. -/
private theorem conforms_runSystem (op : Operation) (args : List Argument) :
    Conforms t op args (runSystem op args t) := by
  unfold runSystem
  split
  case h_1 equation ctx =>
    exact .bind (admits_constants ctx) fun c hc =>
      .bind (looks_computed (SystemBuilder.errsBy_new (fun _ _ => .constraint _)
        (equationError_of_ofText _ c))) fun _ _ => conforms_created ⟨trivial, hc, trivial⟩ rfl
  case h_2 target equation =>
    exact .bind (stands_builder target) fun p hp =>
      .bind (looks_computed (SystemBuilder.errsBy_tryConstrain (equationError_of_ofText _ _)))
        fun _ _ => conforms_update ⟨⟨p.1, _, hp⟩, trivial, trivial⟩ rfl hp rfl rfl
  case h_3 target =>
    exact .bind (stands_builder target) fun p hp => .looked ⟨⟨p.1, _, hp⟩, trivial⟩ (.inl rfl)
  case h_4 target =>
    exact .bind (stands_builder target) fun p hp =>
      .bind (looks_computed (SystemBuilder.errsBy_build (fun _ _ _ _ => .constraint _) _))
        fun _ _ => conforms_created ⟨⟨p.1, _, hp⟩, trivial⟩ rfl
  case h_5 target => exact conforms_destroy rfl rfl
  case h_6 target =>
    exact .bind (stands_builder target) fun p hp => .looked ⟨⟨p.1, _, hp⟩, trivial⟩ (.inl rfl)
  case h_7 target name guess lower upper => exact conforms_specify target name guess lower upper
  case h_8 target margin limit =>
    exact .bind (stands_system target) fun p hp => .bind (looks_index limit) fun n _ =>
      conforms_computed ⟨⟨p.1, _, hp⟩, trivial, trivial, trivial⟩ rfl
  case h_9 target => exact conforms_destroy rfl rfl
  case h_10 => exact .refused rfl

/-! ### Pools -/

/-- Every operation on pools `Conforms` to its signature. -/
private theorem conforms_runPool (op : Operation) (args : List Argument) :
    Conforms t op args (runPool op args t) := by
  unfold runPool
  split
  case h_1 => exact conforms_created trivial rfl
  case h_2 target name guess lower upper =>
    exact conforms_nameIn (.inr rfl) rfl fun n => .bind (looks_number guess) fun g _ =>
      .bind (looks_number lower) fun lo _ => .bind (looks_number upper) fun hi _ =>
        .bind (stands_declared target) fun p hp =>
          conforms_update ⟨⟨p.1, _, hp⟩, trivial, trivial, trivial, trivial, trivial⟩ rfl hp rfl rfl
  case h_3 target => exact conforms_destroy rfl rfl
  case h_4 block ctx declared margin limit =>
    refine .bind (admits_declarations declared) fun d hd => .bind (admits_constants ctx) fun c hc =>
      .bind (looks_index limit) fun n _ => ?_
    split
    · exact conforms_computed ⟨trivial, hc, hd, trivial, trivial, trivial⟩ rfl
    · exact .refused rfl
  case h_5 => exact .refused rfl

/-! ### All operations -/

/-- **Every operation keeps to its signature.** -/
theorem conforms_run (t : HandleTable) (op : Operation) (args : List Argument) :
    Conforms t op args (op.run args t) := by
  unfold run
  split
  all_goals first
    | exact conforms_runMatrix _ args
    | exact conforms_runContext _ args
    | exact conforms_runSystem _ args
    | exact conforms_runPool _ args
    | skip
  · split
    · exact .looked ⟨trivial, trivial⟩ (.inl rfl)
    · exact .unguarded rfl
  · split
    · exact .looked trivial (.inl rfl)
    · exact .unguarded rfl

end

end Operation

end FluxBalance
