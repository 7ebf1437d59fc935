import FluxBalance.Proofs.Network.Passes
import FluxBalance.Proofs.Network.Resolution
import FluxBalance.Proofs.Newton.Failures
import FluxBalance.Proofs.Study.Agreement
import FluxBalance.Proofs.Study.Rollback

/-!
# Networks in which nothing is in the way

A network is `Evaluable` if it is `WellFormed`, nobody writes to a node and no node is marked. In an
evaluable network evaluating balances and fluxes and reading off the result fail at most at a loop
of driving elements. It is `Calm` if nobody is inside a node at all. In a calm network values of
unknowns can be written and driven potentials can be derived, too. So solving a calm network fails
only if there are no equations to set up, for reasons of the iteration, or at such a loop.

A network is `Clear` if besides it has no loop of driving elements. Then nothing but the iteration
and the lack of equations is in the way of solving it.

## Main definitions and results

* `Calm`, `Clear`: nobody is in the way of evaluating a network, and no loop either;
* `Refusal`, `refusal_of_solve`: how solving a calm network fails;
* `SolveError`, `solveError_of_solve`: how solving a clear network fails.
-/

namespace FluxBalance.Network

open FluxBalance.Computation

variable {α : Type} [Scalar α] {F net : Network α}

/-- Nothing but loops of driving elements is in the way of evaluating balances and fluxes. -/
structure Evaluable (net : Network α) : Prop where
  wellFormed : net.WellFormed
  readable : net.Readable
  unmarked : net.resolving = []

theorem Evaluable.of_frame_eq {a b : Network α} (ha : a.Evaluable) (h : a.frame = b.frame) :
    b.Evaluable where
  wellFormed := ha.wellFormed.of_frame_eq h
  readable hm := by
    obtain ⟨n, hn, hframe⟩ := getElem?_of_frame_eq h.symm hm
    exact (Node.frame_eq_iff.mp hframe).2.2.2.2 ▸ ha.readable hn
  unmarked := (resolving_of_frame_eq h).symm.trans ha.unmarked

/-- Nothing but loops of driving elements is in the way of evaluating the equations. -/
structure Calm (net : Network α) : Prop where
  wellFormed : net.WellFormed
  free : ∀ {i : Nat} {n : Node α}, net.nodes[i]? = some n → n.access = .free
  unmarked : net.resolving = []

theorem Calm.of_frame_eq {a b : Network α} (ha : a.Calm) (h : a.frame = b.frame) : b.Calm where
  wellFormed := ha.wellFormed.of_frame_eq h
  free hm := by
    obtain ⟨n, hn, hframe⟩ := getElem?_of_frame_eq h.symm hm
    exact (Node.frame_eq_iff.mp hframe).2.2.2.2.trans (ha.free hn)
  unmarked := (resolving_of_frame_eq h).symm.trans ha.unmarked

omit [Scalar α] in
theorem Calm.evaluable (h : net.Calm) : net.Evaluable where
  wellFormed := h.wellFormed
  readable hn := by
    rw [h.free hn]
    exact nofun
  unmarked := h.unmarked

/-- Nothing is in the way of evaluating the network. -/
structure Clear (net : Network α) : Prop where
  wellFormed : net.WellFormed
  free : ∀ {i : Nat} {n : Node α}, net.nodes[i]? = some n → n.access = .free
  unmarked : net.resolving = []
  acyclic : ¬net.HasLoop

omit [Scalar α] in
theorem Clear.calm (h : net.Clear) : net.Calm := ⟨h.wellFormed, h.free, h.unmarked⟩

theorem Clear.of_frame_eq {a b : Network α} (ha : a.Clear) (h : a.frame = b.frame) : b.Clear where
  wellFormed := ha.wellFormed.of_frame_eq h
  free := (ha.calm.of_frame_eq h).free
  unmarked := (resolving_of_frame_eq h).symm.trans ha.unmarked
  acyclic := mt (hasLoop_of_frame_eq h).mpr ha.acyclic

omit [Scalar α] in
theorem Clear.readable (h : net.Clear) : net.Readable := h.calm.evaluable.readable

/-- A conflict at a node on a loop of driving elements. -/
inductive LoopError (net : Network α) : Error α → Prop
  | drivenLoop {j : Nat} : net.OnLoop j → LoopError net (.borrow (.drivenLoop j))

theorem LoopError.of_frame_eq {a b : Network α} {cause : Error α} (h : a.LoopError cause)
    (hab : a.frame = b.frame) : b.LoopError cause := by
  obtain ⟨hj⟩ := h
  refine .drivenLoop ?_
  rwa [OnLoop, ← drives_of_frame_eq hab]

omit [Scalar α] in
/-- What fails at loops at most does not fail where there are none. -/
private theorem Clear.failsBy {β : Type} {P : Network α → Prop} {m : NetworkAction α β}
    (h : F.Clear) (hm : FailsBy P F.LoopError m) : FailsBy P (fun _ => False) m :=
  hm.mono fun _ ⟨hj⟩ => h.acyclic ⟨_, hj⟩

/-- The unknown is a component of an unlocked node. -/
def IsUnknown (net : Network α) (u : ComponentIndex) : Prop :=
  ∃ n, net.nodes[u.node]? = some n ∧ n.isLocked = false ∧ u.component < n.components

/-! ### Writing -/

/-- The component exists, and nobody is inside its node. -/
def Writable (net : Network α) (u : ComponentIndex) : Prop :=
  ∃ n, net.nodes[u.node]? = some n ∧ n.access = .free ∧ u.component < n.components

theorem keeps_frame_writeUnknowns (x : Unknowns α) :
    Keeps (fun net => net.frame = F.frame) (writeUnknowns x) :=
  keeps_frame (keeps_writeUnknowns fun _ _ => trivial)

private theorem keeps_frame_setComponent (index c : Int) (y : α) :
    Keeps (fun net => net.frame = F.frame) (changeNode index (·.setComponent c y)) := by
  refine keeps_changeNode fun net i n n' hnet _ hn hn' => ?_
  obtain ⟨-, p, hp, rfl⟩ := Node.setComponent_eq_ok_iff.mp hn'
  obtain ⟨r, z, -, -, -, -, rfl⟩ := DenseMatrix.set_eq_ok_iff.mp hp
  have hshape : (n.potential.replace r z y).shape = n.potential.shape := rfl
  exact (frame_setNode hn (Node.frame_set_potential hshape)).trans hnet

omit [Scalar α] in
/-- A component is written exactly if it is `Writable`. -/
private theorem exists_setComponent_iff [Zero α] (hwf : net.WellFormed) {u : ComponentIndex}
    {y : α} : (∃ net', changeNode u.node (·.setComponent u.component y) net = .ok () net') ↔
      net.Writable u := by
  constructor
  · rintro ⟨net', h⟩
    obtain ⟨i, n, n', hi, hn, hn', -⟩ := changeNode_eq_ok_iff.mp h
    obtain rfl : u.node = i := by omega
    obtain ⟨hfree, p, hp, -⟩ := Node.setComponent_eq_ok_iff.mp hn'
    obtain ⟨r, z, hr, -, hrow, -, -⟩ := DenseMatrix.set_eq_ok_iff.mp hp
    obtain rfl : u.component = r := by omega
    exact ⟨n, hn, hfree, hrow⟩
  · rintro ⟨n, hn, hfree, hc⟩
    have hcol : 0 < n.potential.cols := by
      rw [hwf.column hn]
      exact Nat.one_pos
    have hset : n.potential.set u.component 0 y = .ok (n.potential.replace u.component 0 y) :=
      DenseMatrix.set_eq_ok_iff.mpr ⟨u.component, 0, rfl, rfl, hc, hcol, rfl⟩
    exact ⟨_, changeNode_eq_ok_iff.mpr ⟨u.node, n, _, rfl, hn,
      Node.setComponent_eq_ok_iff.mpr ⟨hfree, _, hset, rfl⟩, rfl⟩⟩

theorem Writable.of_frame_eq {a b : Network α} {u : ComponentIndex} (h : a.Writable u)
    (hab : a.frame = b.frame) : b.Writable u := by
  obtain ⟨n, hn, hfree, hc⟩ := h
  obtain ⟨m, hm, hframe⟩ := getElem?_of_frame_eq hab hn
  obtain ⟨hshape, -, -, -, haccess⟩ := Node.frame_eq_iff.mp hframe
  have hrows : n.components = m.components := congrArg Prod.fst hshape
  exact ⟨m, hm, haccess ▸ hfree, hrows ▸ hc⟩

/-- **Values can be written exactly if all components exist and nobody is inside their nodes.** -/
theorem exists_writeUnknowns_iff (hF : F.WellFormed) :
    ∀ {x : Unknowns α} {a : Network α}, a.frame = F.frame →
      ((∃ b, writeUnknowns x a = .ok () b) ↔ ∀ u ∈ x.map Prod.fst, F.Writable u)
  | [], a, _ => iff_of_true ⟨a, rfl⟩ nofun
  | (u, y) :: rest, a, ha => by
    have hfirst := exists_setComponent_iff (u := u) (y := y) (hF.of_frame_eq ha.symm)
    have hframe {a₁ : Network α}
        (h : changeNode u.node (·.setComponent u.component y) a = .ok () a₁) :
        a₁.frame = F.frame := (keeps_frame_setComponent _ _ y).of_ok ha h
    rw [List.map_cons, List.forall_mem_cons]
    constructor
    · rintro ⟨b, h⟩
      obtain ⟨_, a₁, hset, h⟩ := bind_eq_ok.mp h
      exact ⟨(hfirst.mp ⟨a₁, hset⟩).of_frame_eq ha,
        (exists_writeUnknowns_iff hF (hframe hset)).mp ⟨b, h⟩⟩
    · rintro ⟨hu, hrest⟩
      obtain ⟨a₁, hset⟩ := hfirst.mpr (hu.of_frame_eq ha.symm)
      obtain ⟨b, h⟩ := (exists_writeUnknowns_iff hF (hframe hset)).mpr hrest
      exact ⟨b, bind_eq_ok.mpr ⟨(), a₁, hset, h⟩⟩

/-- Writing values of unknowns does not fail. -/
theorem failsBy_writeUnknowns (hF : F.Calm) {x : Unknowns α} (hx : Newton.Over F.IsUnknown x) :
    FailsBy (fun net => net.frame = F.frame) (fun _ => False) (writeUnknowns x) := by
  refine .of_exists_ok fun net hnet => ?_
  obtain ⟨b, h⟩ := (exists_writeUnknowns_iff hF.wellFormed hnet).mpr fun u hu => by
    obtain ⟨n, hn, -, hc⟩ := Newton.over_iff_keys.mp hx u hu
    exact ⟨n, hn, hF.free hn, hc⟩
  exact ⟨(), b, h⟩

/-! ### Settling -/

/-- Deriving the driven potentials does not fail. -/
theorem failsBy_settle (hF : F.Calm) :
    FailsBy (fun net => net.frame = F.frame) (fun _ => False) settle := by
  refine .of_exists_ok fun net hnet => ?_
  obtain ⟨b, h⟩ := (exists_settle_iff hF.wellFormed hnet).mpr fun e _ => open_of_free hF.free e
  exact ⟨(), b, h⟩

/-! ### Evaluating -/

/-- A balance is evaluated unless a loop is met. -/
private theorem failsBy_discrepancy (hF : F.Evaluable) {i : Nat} (hi : i < F.nodes.size) :
    FailsBy (fun net => net.frame = F.frame) F.LoopError (discrepancy i) := by
  intro net hnet cause net' h
  have hnet' := hF.of_frame_eq hnet.symm
  have hends := ends_discrepancy hnet'.wellFormed hnet'.readable hnet'.unmarked
    (size_of_frame_eq hnet ▸ hi)
  rw [h] at hends
  cases hends with
  | loop _ _ hloop => exact (LoopError.drivenLoop hloop).of_frame_eq hnet

/-- The `flux` of any element is evaluated unless a loop is met. -/
private theorem failsBy_flux (hF : F.Evaluable) {e : Element α} (he : e ∈ F.elements.toList) :
    FailsBy (fun net => net.frame = F.frame) F.LoopError (flux e) := by
  intro net hnet cause net' h
  have hnet' := hF.of_frame_eq hnet.symm
  rw [← elements_of_frame_eq hnet] at he
  by_cases hd : e.kind.drives = true
  · have hends := ends_flux hnet'.wellFormed hnet'.readable hnet'.unmarked
      (List.mem_filter.mpr ⟨he, hd⟩)
    rw [h] at hends
    cases hends with
    | loop _ _ hloop => exact (LoopError.drivenLoop hloop).of_frame_eq hnet
  · obtain ⟨w, hfits⟩ := hnet'.wellFormed.fits_of_mem e he
    obtain ⟨f, hf⟩ := exists_passiveFlux hnet'.wellFormed hnet'.readable hfits
    rw [flux, fluxBy, if_neg hd, look_eq_ok_iff.mpr ⟨hf, rfl⟩] at h
    cases h

/-- If the point can be written and settled, an equation is evaluated there unless a loop is met. -/
theorem Evaluable.failsBy_balance (hF : F.Evaluable) {i : ComponentIndex} (hi : F.IsUnknown i)
    {x : Unknowns α}
    (hwrite : FailsBy (fun net => net.frame = F.frame) (fun _ => False) (writeUnknowns x))
    (hsettle : FailsBy (fun net => net.frame = F.frame) (fun _ => False) settle) :
    FailsBy (fun net => net.frame = F.frame) F.LoopError (balance i x) := by
  obtain ⟨m, hm, -, hc⟩ := hi
  have hsize : i.node < F.nodes.size := (Array.getElem?_eq_some_iff.mp hm).1
  refine .bind (hwrite.mono fun _ => False.elim) (keeps_frame_writeUnknowns x) fun _ => ?_
  refine .bind (hsettle.mono fun _ => False.elim) (keeps_settle hF.wellFormed) fun _ => ?_
  refine .bind_of_ok (failsBy_discrepancy hF hsize) ((leaves_discrepancy i.node).keeps _)
    fun d hd => ?_
  -- The discrepancy has the width of the node, so it has the component of the unknown.
  obtain ⟨net, net', hnet, hd⟩ := hd
  have hwidth : net.width? i.node = some m.components := by
    rw [width?_of_frame_eq hnet, width?, hm]
    rfl
  have htab := tabulates_of_discrepancy (hF.of_frame_eq hnet.symm).wellFormed hwidth hd
  refine .of_exists_ok fun s _ => ⟨_, s, look_eq_ok_iff.mpr ⟨fitting_eq_ok_iff.mpr
    (DenseMatrix.get_eq_ok_iff.mpr ⟨i.component, 0, rfl, rfl, ?_, ?_, rfl⟩), rfl⟩⟩
  · rw [htab.rows]
    exact hc
  · rw [htab.cols]
    exact Nat.one_pos

/-- An equation of the network is evaluated at any point over its unknowns, unless a loop is met. -/
theorem Calm.failsBy_balance (hF : F.Calm) {i : ComponentIndex} (hi : F.IsUnknown i)
    {x : Unknowns α} (hx : Newton.Over F.IsUnknown x) :
    FailsBy (fun net => net.frame = F.frame) F.LoopError (balance i x) :=
  hF.evaluable.failsBy_balance hi (failsBy_writeUnknowns hF hx) (failsBy_settle hF)

/-- Without loops, an equation of the network can be evaluated at any point over its unknowns. -/
theorem failsBy_balance (hF : F.Clear) {i : ComponentIndex} (hi : F.IsUnknown i) {x : Unknowns α}
    (hx : Newton.Over F.IsUnknown x) :
    FailsBy (fun net => net.frame = F.frame) (fun _ => False) (balance i x) :=
  hF.failsBy (hF.calm.failsBy_balance hi hx)

private theorem keeps_frame_balance (hF : F.WellFormed) (i : ComponentIndex) (x : Unknowns α) :
    Keeps (fun net => net.frame = F.frame) (balance i x) :=
  keeps_frame (keeps_balance hF i fun _ _ => trivial)

/-- Without loops, the `flux` of any element can be evaluated. -/
theorem exists_flux (h : net.Clear) {e : Element α} (he : e ∈ net.elements.toList) :
    ∃ f, flux e net = .ok f net := by
  obtain ⟨f, net', hf⟩ := (h.failsBy (failsBy_flux h.calm.evaluable he)).exists_ok rfl
  obtain rfl := (leaves_flux e).of_ok hf
  exact ⟨f, hf⟩

/-- Reading off the fluxes fails by a `LoopError` only. -/
private theorem failsBy_fluxesOf (hF : F.Evaluable) :
    ∀ {es : List (Element α)}, (∀ e ∈ es, e ∈ F.elements.toList) →
      FailsBy (fun net => net.frame = F.frame) F.LoopError (fluxesOf es)
  | [], _ => .pure _
  | e :: es, hes =>
    .bind (failsBy_flux hF (hes e List.mem_cons_self)) ((leaves_flux e).keeps _) fun _ =>
      .bind (failsBy_fluxesOf hF fun e' he' => hes e' (List.mem_cons_of_mem e he'))
        ((leaves_fluxesOf es).keeps _) fun _ => .pure _

omit [Scalar α] in
/-- Of a `Readable` network a `snapshot` can be taken. -/
theorem exists_snapshot (h : net.Readable) : ∃ saved, net.snapshot = .ok saved := by
  refine exists_except_mapM fun n hn => ?_
  obtain ⟨i, hi⟩ := Array.mem_iff_getElem?.mp (Array.mem_toList_iff.mp hn)
  exact ⟨_, Node.read_eq_ok_iff.mpr ⟨h hi, rfl⟩⟩

omit [Scalar α] in
/-- A network of which a `snapshot` has been taken is `Readable`. -/
theorem readable_of_snapshot {saved : List (DenseMatrix α)} (h : net.snapshot = .ok saved) :
    net.Readable := by
  intro i n hn
  have hmem : n ∈ net.nodes.toList := Array.mem_toList_iff.mpr (Array.mem_of_getElem? hn)
  obtain ⟨p, -, hp⟩ := exists_of_mem_of_forall₂ (except_mapM_eq_ok.mp h).flip n hmem
  exact (Node.read_eq_ok_iff.mp hp).1

/-- The result is read off unless a loop is met. -/
theorem failsBy_readOff (hF : F.Evaluable) :
    FailsBy (fun net => net.frame = F.frame) F.LoopError readOff := by
  have hfluxes : FailsBy (fun net => net.frame = F.frame) F.LoopError
      (fun net : Network α => fluxesOf net.elements.toList net) := by
    intro net hnet
    have helements := elements_of_frame_eq hnet
    exact failsBy_fluxesOf hF (fun e he => helements ▸ he) net hnet
  refine .bind hfluxes (fun net hnet => ?_) fun _ => .bind (.of_exists_ok fun net hnet => ?_)
    (keeps_look _) fun _ => .pure _
  · rwa [leaves_fluxesOf net.elements.toList net]
  · obtain ⟨saved, hsaved⟩ := exists_snapshot (hF.of_frame_eq hnet.symm).readable
    exact ⟨saved, net, look_eq_ok_iff.mpr ⟨hsaved, rfl⟩⟩

/-! ### Solving -/

/-- The `unknowns` of a `Readable` network can be listed. -/
theorem exists_unknowns (h : net.Readable) : ∃ guess, net.unknowns = .ok guess := by
  have hparts : ∀ p ∈ net.nodes.toList.zipIdx, ∃ us, nodeUnknowns p.2 p.1 = .ok us := by
    rintro ⟨n, i⟩ hp
    rw [List.mem_zipIdx_iff_getElem?, Array.getElem?_toList] at hp
    unfold nodeUnknowns
    split
    · exact ⟨_, rfl⟩
    · exact ⟨_, except_bind_eq_ok.mpr ⟨_, Node.read_eq_ok_iff.mpr ⟨h hp, rfl⟩, rfl⟩⟩
  obtain ⟨parts, hparts⟩ := exists_except_mapM hparts
  exact ⟨_, except_bind_eq_ok.mpr ⟨parts, hparts, rfl⟩⟩

theorem over_isUnknown_of_unknowns {guess : Unknowns α} (h : net.unknowns = .ok guess) :
    Newton.Over net.IsUnknown guess :=
  Newton.over_iff_keys.mpr fun _ hk => (mem_keys_of_unknowns h).mp hk

private theorem residualsKeep_frame (hF : F.WellFormed) (guess : Unknowns α) :
    Newton.ResidualsKeep (fun net => net.frame = F.frame) F.IsUnknown
      (guess.map fun u => balanceResidual u.1) := by
  intro r hr x _
  obtain ⟨u, -, rfl⟩ := List.mem_map.mp hr
  exact keeps_frame_balance hF u.1 x

/-- An equation fails at a loop or because its value is not finite. -/
private theorem residualsFailBy (hF : F.Calm) {guess : Unknowns α}
    (hguess : Newton.Over F.IsUnknown guess) {Q : Error α → Prop}
    (hfinite : ∀ name, Q (.evaluation name (.domain .residualNotFinite)))
    (hloop : ∀ cause, F.LoopError cause → Q cause) :
    Newton.ResidualsFailBy (fun net => net.frame = F.frame) Q F.IsUnknown
      (guess.map fun u => balanceResidual u.1) := by
  intro r hr x hx
  obtain ⟨u, hu, rfl⟩ := List.mem_map.mp hr
  refine Newton.failsBy_evaluate (hfinite _) ((hF.failsBy_balance (hguess u hu) hx).mono ?_)
  -- A conflict is not arithmetic, so it is passed on as it is.
  rintro _ ⟨hj⟩
  exact hloop _ (.drivenLoop hj)

/-- Once a point has been found, the rest of solving fails at loops at most. -/
theorem Calm.failsBy_finish (hF : F.Calm) {x : Unknowns α} (hx : Newton.Over F.IsUnknown x) :
    FailsBy (fun net => net.frame = F.frame) F.LoopError
      (do writeUnknowns x; settle; readOff) :=
  .bind ((failsBy_writeUnknowns hF hx).mono fun _ => False.elim) (keeps_frame_writeUnknowns x)
    fun _ => .bind ((failsBy_settle hF).mono fun _ => False.elim) (keeps_settle hF.wellFormed)
      fun _ => failsBy_readOff hF.evaluable

/-- Without loops, once a point has been found, the rest of solving does not fail. -/
theorem failsBy_finish (hF : F.Clear) {x : Unknowns α} (hx : Newton.Over F.IsUnknown x) :
    FailsBy (fun net => net.frame = F.frame) (fun _ => False)
      (do writeUnknowns x; settle; readOff) :=
  hF.failsBy (hF.calm.failsBy_finish hx)

/-- The errors with which solving a calm network fails. -/
inductive Refusal (net : Network α) : Error α → Prop
  | noNodes : net.nodes.size = 0 → Refusal net .noNodes
  | indexOverflow (cause : IndexOverflow) : Refusal net (.indexOverflow cause)
  | margin : Refusal net .margin
  | iterate {cause : Error α} : Newton.IterateError Newton.defaultStep cause → Refusal net cause
  | loop {cause : Error α} : net.LoopError cause → Refusal net cause

/-- As many equations as unknowns are set up, so the iteration does not fail for their numbers. -/
private theorem failsBy_solveFrom (hF : F.Calm) {guess : Unknowns α}
    (hguess : Newton.Over F.IsUnknown guess) (margin : α) (limit : Int) :
    FailsBy (fun net => net.frame = F.frame) F.Refusal
      (solveFrom (guess.map fun u => balanceResidual u.1) guess (.ofMargin margin limit)) := by
  have hkeep := residualsKeep_frame hF.wellFormed guess
  refine .bind_of_ok (Newton.failsBy_solveSystem rfl .margin
    (fun hne => absurd (List.length_map _) hne) (fun _ => .iterate) hkeep
    (residualsFailBy hF hguess (fun name => .iterate (.notFinite name)) fun _ => .loop) hguess _)
    (Newton.keeps_solveSystem hkeep hguess _ _) fun x hx => ?_
  obtain ⟨s, s', hs, hx⟩ := hx
  obtain ⟨hkeys, -⟩ := Newton.converged_of_solveSystem hkeep hguess hs hx
  have hover : Newton.Over F.IsUnknown x := by
    rw [Newton.over_iff_keys, hkeys]
    exact Newton.over_iff_keys.mp hguess
  exact (hF.failsBy_finish hover).mono fun _ => .loop

/-- The equations of a network that can be read are set up unless it has no nodes or too many. -/
private theorem refusal_of_generateSystem (hread : net.Readable) {limit : Nat} {cause : Error α}
    (h : net.generateSystem limit = .error cause) : net.Refusal cause := by
  obtain ⟨guess, hguess⟩ := exists_unknowns hread
  unfold generateSystem at h
  rw [hguess] at h
  cases hcheck : net.checkIndexRange limit with
  | ok u =>
    rw [hcheck] at h
    cases h
  | error cause' =>
    rw [hcheck] at h
    cases h
    unfold checkIndexRange at hcheck
    dsimp only [bind, Except.bind, throw, throwThe, MonadExceptOf.throw] at hcheck
    split at hcheck
    · rename_i hempty
      cases hcheck
      exact .noNodes (Array.isEmpty_iff_size_eq_zero.mp hempty)
    split at hcheck
    · cases hcheck
      exact .indexOverflow _
    split at hcheck
    · cases hcheck
      exact .indexOverflow _
    · cases hcheck

/-- **Solving a `Calm` network fails for lack of equations, for reasons of the iteration, or at a
loop only.** -/
theorem refusal_of_solve (hcalm : net.Calm) {margin : α} {limit : Int} {indexLimit : Nat}
    {cause : Error α} {after : Network α}
    (h : solve margin limit indexLimit net = .error cause after) : net.Refusal cause := by
  obtain ⟨saved, hsaved⟩ := exists_snapshot hcalm.evaluable.readable
  unfold solve at h
  rw [bind_apply, NetworkAction.look] at h
  cases hsystem : net.generateSystem indexLimit with
  | error cause' =>
    rw [hsystem] at h
    cases h
    exact refusal_of_generateSystem hcalm.evaluable.readable hsystem
  | ok system =>
  obtain ⟨rs, guess⟩ := system
  obtain ⟨hguess, rfl⟩ := generateSystem_eq_ok hsystem
  rw [hsystem] at h
  dsimp only at h
  rw [bind_apply, NetworkAction.look, hsaved] at h
  dsimp only at h
  unfold restoring at h
  cases hbody : solveFrom (guess.map fun u => balanceResidual u.1) guess (.ofMargin margin limit)
      net with
  | ok sol net₁ =>
    rw [hbody] at h
    cases h
  | error cause' net₁ =>
    -- Giving back the potentials does not fail, so the failure is that of the attempt.
    have hframe : net₁.frame = net.frame := (keeps_solveFrom hcalm.wellFormed).of_error rfl hbody
    have hrestore : restore saved net₁ = .ok () net :=
      restoreFrom_eq_ok hcalm.free hframe (snapshot_eq_ok hsaved) (by simp)
    rw [hbody] at h
    dsimp only at h
    rw [hrestore] at h
    cases h
    exact failsBy_solveFrom hcalm (over_isUnknown_of_unknowns hguess) margin limit net rfl _ _ hbody

/-- The errors with which solving a clear network fails. -/
inductive SolveError : Error α → Prop
  | noNodes : SolveError .noNodes
  | indexOverflow (cause : IndexOverflow) : SolveError (.indexOverflow cause)
  | iteration {cause : Error α} : Newton.IterationError cause → SolveError cause

/-- **Solving a `Clear` network fails for lack of equations or for reasons of the iteration
only.** -/
theorem solveError_of_solve (hclear : net.Clear) {margin : α} {limit : Int} {indexLimit : Nat}
    {cause : Error α} {after : Network α}
    (h : solve margin limit indexLimit net = .error cause after) : SolveError cause := by
  cases refusal_of_solve hclear.calm h with
  | noNodes _ => exact .noNodes
  | indexOverflow cause => exact .indexOverflow cause
  | margin => exact .iteration .margin
  | iterate h => exact .iteration h.iterationError
  | loop h =>
    obtain ⟨hj⟩ := h
    exact absurd ⟨_, hj⟩ hclear.acyclic

end FluxBalance.Network
