import FluxBalance.Study.Solve
import FluxBalance.Proofs.Network.Chains
import FluxBalance.Proofs.Newton.Convergence

/-!
# What evaluating and solving change

Whatever is done while a network is solved writes to potentials alone: writing the unknowns,
settling, evaluating equations, reading off the result and restoring saved potentials. So all of it
keeps the `frame`, whether it succeeds or fails. More precisely, apart from restoring, it writes
only to nodes where something is unknown and to driven ones: networks in which nothing else has
changed are said to differ in these unknowns.

## Main definitions and results

* `DiffersIn`: networks that differ in some unknowns and in driven potentials only;
* `residualsKeep`: evaluating equations keeps this;
* `frame_solve`: solving keeps the `frame`.
-/

namespace FluxBalance.Network

open FluxBalance.Computation

variable {α : Type} [Scalar α] {K : ComponentIndex → Prop} {F : Network α}

/-- The network differs from `F` in potentials alone, and of the nodes that no element drives only
in those where some component is among the unknowns `K`. -/
structure DiffersIn (K : ComponentIndex → Prop) (F net : Network α) : Prop where
  frame : net.frame = F.frame
  node : ∀ {i : Nat}, (∀ c, ¬K ⟨i, c⟩) → (∀ e ∈ F.drivers, e.driven ≠ i) →
    net.nodes[i]? = F.nodes[i]?

theorem DiffersIn.refl (K : ComponentIndex → Prop) (net : Network α) : DiffersIn K net net :=
  ⟨rfl, fun _ _ => rfl⟩

/-- If everything may be unknown, only the `frame` is kept. -/
theorem keeps_frame {β : Type} {m : NetworkAction α β}
    (h : Keeps (DiffersIn (fun _ => True) F) m) : Keeps (fun net => net.frame = F.frame) m :=
  fun net hnet => (h net ⟨hnet, fun hi => absurd trivial (hi 0)⟩).frame

/-! ### Writing -/

/-- Writing unknowns makes a difference in these unknowns only. -/
theorem keeps_writeUnknowns :
    ∀ {x : Unknowns α}, Newton.Over K x → Keeps (DiffersIn K F) (writeUnknowns x)
  | [], _ => .pure ()
  | (i, y) :: rest, hx => by
    refine .bind (keeps_changeNode ?_) fun _ =>
      keeps_writeUnknowns fun u hu => hx u (List.mem_cons_of_mem _ hu)
    intro net j n n' hnet hj hn hn'
    obtain rfl : i.node = j := by omega
    obtain ⟨-, p, hp, rfl⟩ := Node.setComponent_eq_ok_iff.mp hn'
    obtain ⟨r, c, -, -, -, -, rfl⟩ := DenseMatrix.set_eq_ok_iff.mp hp
    have hshape : (n.potential.replace r c y).shape = n.potential.shape := rfl
    refine ⟨(frame_setNode hn (Node.frame_set_potential hshape)).trans hnet.frame,
      fun {k} hk hdriven => ?_⟩
    have hne : i.node ≠ k := by
      rintro rfl
      exact hk i.component (hx (i, y) List.mem_cons_self)
    rw [getElem?_nodes_setNode (Array.getElem?_eq_some_iff.mp hn).1, if_neg hne]
    exact hnet.node hk hdriven

/-- Settling makes a difference in driven potentials only, which `DiffersIn` allows. -/
theorem keeps_settle_differsIn (hF : F.WellFormed) : Keeps (DiffersIn K F) settle := by
  refine fun net hnet => ⟨keeps_settle hF net hnet.frame, fun hi hdriven => ?_⟩
  rw [getElem?_of_settle (drivers_of_frame_eq hnet.frame ▸ hdriven)]
  exact hnet.node hi hdriven

/-! ### Saved potentials -/

omit [Scalar α] in
/-- The saved potentials are those of the nodes. -/
theorem snapshot_eq_ok {net : Network α} {saved : List (DenseMatrix α)}
    (h : net.snapshot = .ok saved) : saved = net.nodes.toList.map Node.potential := by
  have hread : List.Forall₂ (fun n p => Node.potential n = p) net.nodes.toList saved :=
    (except_mapM_eq_ok.mp h).imp fun n p hp => (Node.read_eq_ok_iff.mp hp).2.symm
  rw [← List.forall₂_map_left_iff (R := Eq), List.forall₂_eq_eq_eq] at hread
  exact hread.symm

private theorem keeps_restoreFrom :
    ∀ (i : Nat) (ps : List (DenseMatrix α)),
      Keeps (fun net => net.frame = F.frame) (restoreFrom i ps)
  | _, [] => .pure ()
  | i, p :: ps => by
    refine .bind (keeps_changeNode ?_) fun _ => keeps_restoreFrom (i + 1) ps
    intro net j n n' hnet _ hn hn'
    obtain ⟨-, hshape, rfl⟩ := Node.setPotential_eq_ok_iff.mp hn'
    exact (frame_setNode hn (Node.frame_set_potential hshape)).trans hnet

/-! ### Evaluating -/

/-- Evaluating an equation makes a difference in the unknowns only. -/
theorem keeps_balance (hF : F.WellFormed) (i : ComponentIndex) {x : Unknowns α}
    (hx : Newton.Over K x) : Keeps (DiffersIn K F) (balance i x) :=
  .bind (keeps_writeUnknowns hx) fun _ => .bind (keeps_settle_differsIn hF) fun _ =>
    .bind ((leaves_discrepancy i.node).keeps _) fun _ => keeps_look _

/-- Evaluating an equation keeps the `frame`, whether it succeeds or fails. -/
theorem frame_balance {net : Network α} (hwf : net.WellFormed) (i : ComponentIndex)
    (x : Unknowns α) : (finalState (balance i x net)).frame = net.frame :=
  keeps_frame (keeps_balance hwf i fun _ _ => trivial) net rfl

theorem leaves_fluxesOf : ∀ es : List (Element α), Leaves (fluxesOf es)
  | [] => .pure _
  | e :: es => .bind (leaves_flux e) fun _ => .bind (leaves_fluxesOf es) fun _ => .pure _

/-- Reading off the result changes nothing. -/
theorem leaves_readOff : Leaves (readOff : NetworkAction α (Solution α)) :=
  .bind (fun net => leaves_fluxesOf net.elements.toList net) fun _ =>
    .bind (leaves_look _) fun _ => .pure _

/-! ### Solving -/

/-- The equations of a network are balances of its `unknowns`. -/
theorem generateSystem_eq_ok {net : Network α} {limit : Nat}
    {rs : List (Newton.Residual ComponentIndex α (Network α))} {guess : Unknowns α}
    (h : net.generateSystem limit = .ok (rs, guess)) :
    net.unknowns = .ok guess ∧ rs = guess.map fun u => balanceResidual u.1 := by
  unfold generateSystem at h
  obtain ⟨_, -, h⟩ := except_bind_eq_ok.mp h
  obtain ⟨guess', hguess, h⟩ := except_bind_eq_ok.mp h
  cases h
  exact ⟨hguess, rfl⟩

/-- The residuals of a network make a difference in the unknowns only. -/
theorem residualsKeep (hF : F.WellFormed) (guess : Unknowns α) :
    Newton.ResidualsKeep (DiffersIn K F) K (guess.map fun u => balanceResidual u.1) := by
  intro r hr x hx
  obtain ⟨u, -, rfl⟩ := List.mem_map.mp hr
  exact keeps_balance hF u.1 hx

theorem keeps_solveFrom (hF : F.WellFormed) {guess : Unknowns α} {cfg : Newton.Config α} :
    Keeps (fun net => net.frame = F.frame)
      (solveFrom (guess.map fun u => balanceResidual u.1) guess cfg) := by
  refine keeps_frame (.bind ?_ fun x => .bind (keeps_writeUnknowns fun _ _ => trivial) fun _ =>
    .bind (keeps_settle_differsIn hF) fun _ => leaves_readOff.keeps _)
  exact Newton.keeps_solveSystem (residualsKeep hF guess) (fun _ _ => trivial) _ _

/-- Solving with a way back, `restoring`, keeps the `frame` if solving does. -/
private theorem keeps_restoring {β : Type} {body : NetworkAction α β}
    (h : Keeps (fun net => net.frame = F.frame) body) (saved : List (DenseMatrix α)) :
    Keeps (fun net => net.frame = F.frame) (restoring saved body) := by
  intro net hnet
  unfold restoring
  cases hbody : body net with
  | ok b net₁ => exact h.of_ok hnet hbody
  | error e net₁ =>
    -- Giving back the potentials may fail in turn, and keeps the frame then, too.
    have hnet₁ := h.of_error hnet hbody
    have hrestore := keeps_restoreFrom 0 saved net₁ hnet₁
    dsimp only
    rw [restore]
    cases hr : restoreFrom 0 saved net₁ with
    | ok u net₂ =>
      rw [hr] at hrestore
      exact hrestore
    | error e' net₂ =>
      rw [hr] at hrestore
      exact hrestore

/-- A network is solved if its equations can be set up and its potentials be saved; otherwise
nothing has been done to it. -/
theorem solve_cases (margin : α) (limit : Int) (indexLimit : Nat) (net : Network α) :
    (∃ e, solve margin limit indexLimit net = .error e net) ∨
      ∃ guess saved, net.unknowns = .ok guess ∧ net.snapshot = .ok saved ∧
        solve margin limit indexLimit net =
          restoring saved (solveFrom (guess.map fun u => balanceResidual u.1) guess
            (.ofMargin margin limit)) net := by
  unfold solve
  rw [bind_apply, NetworkAction.look]
  cases hsystem : net.generateSystem indexLimit with
  | error e => exact .inl ⟨e, rfl⟩
  | ok system =>
    obtain ⟨rs, guess⟩ := system
    obtain ⟨hguess, rfl⟩ := generateSystem_eq_ok hsystem
    dsimp only
    rw [bind_apply, NetworkAction.look]
    cases hsaved : net.snapshot with
    | error e => exact .inl ⟨e, rfl⟩
    | ok saved => exact .inr ⟨guess, saved, hguess, rfl, rfl⟩

/-- Solving succeeds as the attempt does once the equations are set up and the potentials saved. -/
theorem solve_eq_ok_iff {margin : α} {limit : Int} {indexLimit : Nat} {net after : Network α}
    {sol : Solution α} :
    solve margin limit indexLimit net = .ok sol after ↔
      net.checkIndexRange indexLimit = .ok () ∧
      ∃ guess saved, net.unknowns = .ok guess ∧ net.snapshot = .ok saved ∧
        solveFrom (guess.map fun u => balanceResidual u.1) guess (.ofMargin margin limit) net =
          .ok sol after := by
  have hrestoring {saved : List (DenseMatrix α)} {body : NetworkAction α (Solution α)} :
      restoring saved body net = .ok sol after ↔ body net = .ok sol after := by
    unfold restoring
    cases body net with
    | ok => exact Iff.rfl
    | error e net₁ => cases hr : restore saved net₁ <;> simp [hr]
  constructor
  · intro h
    obtain ⟨system, net₁, hlook, h⟩ := bind_eq_ok.mp h
    obtain ⟨hsystem, rfl⟩ := look_eq_ok_iff.mp hlook
    obtain ⟨_, hrange, hsystem⟩ := except_bind_eq_ok.mp hsystem
    obtain ⟨guess, hguess, hsystem⟩ := except_bind_eq_ok.mp hsystem
    cases hsystem
    obtain ⟨saved, net₁, hlook, h⟩ := bind_eq_ok.mp h
    obtain ⟨hsaved, rfl⟩ := look_eq_ok_iff.mp hlook
    exact ⟨hrange, guess, saved, hguess, hsaved, hrestoring.mp h⟩
  · rintro ⟨hrange, guess, saved, hguess, hsaved, h⟩
    have hsystem : net.generateSystem indexLimit =
        .ok (guess.map fun u => balanceResidual u.1, guess) :=
      except_bind_eq_ok.mpr ⟨(), hrange, except_bind_eq_ok.mpr ⟨guess, hguess, rfl⟩⟩
    exact bind_eq_ok.mpr ⟨_, net, look_eq_ok_iff.mpr ⟨hsystem, rfl⟩,
      bind_eq_ok.mpr ⟨saved, net, look_eq_ok_iff.mpr ⟨hsaved, rfl⟩, hrestoring.mpr h⟩⟩

/-- Solving keeps the `frame`, whether it succeeds or fails. -/
theorem frame_solve {net : Network α} (hwf : net.WellFormed) (margin : α) (limit : Int)
    (indexLimit : Nat) : (finalState (solve margin limit indexLimit net)).frame = net.frame := by
  rcases solve_cases margin limit indexLimit net with ⟨e, h⟩ | ⟨guess, saved, -, -, h⟩
  · rw [h]
    rfl
  · rw [h]
    exact keeps_restoring (keeps_solveFrom hwf) saved net rfl

end FluxBalance.Network
