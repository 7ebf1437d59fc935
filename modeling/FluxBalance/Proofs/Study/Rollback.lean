import FluxBalance.Proofs.Study.Reachable

/-!
# A failed attempt at solving leaves no trace

Solving writes to potentials at every evaluation of an equation, and it can fail at each of them,
between them or after them, while nodes are marked. The main statement is that after a failure the
network is the one that it was before, in all its parts, provided that nobody is inside a node.
Everything but the potentials is as before because all steps keep the `frame`, and the saved
potentials fit the frame, so that giving them back does not fail.

## Main definitions and results

* `eq_of_solve_eq_error`: after a failed attempt at solving, the network is what it was.
-/

namespace FluxBalance.Network

open FluxBalance.Computation

variable {α : Type} [Scalar α]

/-- A node that nobody is inside is, when it has its potential back, the node that it was. -/
theorem changeNode_giveBack_eq_ok {net a : Network α} (hframe : a.frame = net.frame) {i : Nat}
    {n : Node α} (hn : net.nodes[i]? = some n) (hfree : n.access = .free) :
    ∃ b, changeNode i (fun m => m.setPotential n.potential) a = .ok () b ∧
      b.frame = net.frame ∧
      ∀ j, b.nodes[j]? = if i = j then net.nodes[j]? else a.nodes[j]? := by
  obtain ⟨m, hm, hmframe⟩ := getElem?_of_frame_eq hframe.symm hn
  obtain ⟨hshape, -, -, -, haccess⟩ := Node.frame_eq_iff.mp hmframe
  have hset : m.setPotential n.potential = .ok { m with potential := n.potential } :=
    Node.setPotential_eq_ok_iff.mpr ⟨haccess.symm.trans hfree, hshape, rfl⟩
  have hframe' : ({ m with potential := n.potential } : Node α).frame = m.frame :=
    Node.frame_set_potential hshape
  have hnode : { m with potential := n.potential } = n :=
    Node.eq_of_frame_eq (hframe'.trans hmframe.symm) rfl
  refine ⟨a.setNode i { m with potential := n.potential },
    changeNode_eq_ok_iff.mpr ⟨i, m, _, rfl, hm, hset, rfl⟩,
    (frame_setNode hm hframe').trans hframe, fun j => ?_⟩
  rw [getElem?_nodes_setNode (Array.getElem?_eq_some_iff.mp hm).1, hnode]
  split
  · rename_i hij
    rw [← hij, hn]
  · rfl

/-- Nothing can be given back to a node that somebody is inside. -/
theorem changeNode_giveBack_eq_error {net a : Network α} (hframe : a.frame = net.frame) {i : Nat}
    {n : Node α} (hn : net.nodes[i]? = some n) {conflict : BorrowConflict}
    (hconflict : n.access.enterExclusive = .error conflict) (p : DenseMatrix α) :
    changeNode i (fun m => m.setPotential p) a = .error (.borrow conflict) a := by
  obtain ⟨m, hm, hmframe⟩ := getElem?_of_frame_eq hframe.symm hn
  obtain ⟨-, -, -, -, haccess⟩ := Node.frame_eq_iff.mp hmframe
  have hset : m.setPotential p = .error (.borrow conflict) :=
    Node.change_eq_error (haccess ▸ hconflict)
  have hchanged : a.changed i (fun m => m.setPotential p) = .error (.borrow conflict) := by
    unfold changed
    rw [node_natCast_eq_ok_iff.mpr hm]
    exact congrArg (· >>= fun n => pure (a.setNode (Int.toNat i) n)) hset
  rw [changeNode, hchanged]

/-- Giving back the potentials from some position on restores a network whose `frame` is as before
and whose nodes before the position have their potentials already. -/
theorem restoreFrom_eq_ok {net : Network α}
    (hfree : ∀ {i : Nat} {n : Node α}, net.nodes[i]? = some n → n.access = .free) :
    ∀ {ps : List (DenseMatrix α)} {i : Nat} {a : Network α}, a.frame = net.frame →
      ps = (net.nodes.toList.drop i).map Node.potential →
      (∀ j < i, a.nodes[j]?.map Node.potential = net.nodes[j]?.map Node.potential) →
      restoreFrom i ps a = .ok () net
  | [], i, a, hframe, hps, hdone => by
    have hsize : net.nodes.size ≤ i := by
      simpa using List.map_eq_nil_iff.mp hps.symm
    have hsize' := size_of_frame_eq hframe
    obtain rfl : a = net := by
      refine eq_of_frame_eq hframe fun j => ?_
      by_cases hj : j < i
      · exact hdone j hj
      · rw [Array.getElem?_eq_none (by omega), Array.getElem?_eq_none (by omega)]
    rfl
  | p :: ps, i, a, hframe, hps, hdone => by
    -- The node at the position gets its potential back, and the invariant holds one node further.
    have hi : i < net.nodes.size := by
      by_contra hge
      rw [List.drop_eq_nil_of_le (by simpa using hge)] at hps
      cases hps
    rw [List.drop_eq_getElem_cons (by simpa using hi), List.map_cons, List.cons.injEq,
      Array.getElem_toList] at hps
    obtain ⟨rfl, hps⟩ := hps
    have hn := Array.getElem?_eq_getElem hi
    obtain ⟨b, hb, hbframe, hnodes⟩ := changeNode_giveBack_eq_ok hframe hn (hfree hn)
    rw [restoreFrom, bind_apply, hb]
    refine restoreFrom_eq_ok hfree hbframe hps fun j hj => ?_
    rw [hnodes]
    split
    · rfl
    · exact hdone j (by omega)

/-- **A failed attempt at solving leaves no trace.** Whatever a network has gone through, if
nobody is inside a node and solving fails, the network is as it was before: its potentials, locks,
metadata, elements, registrations, accesses and marks. -/
theorem eq_of_solve_eq_error {allowed : Move α → Prop} {net after : Network α}
    (hnet : Reachable allowed net)
    (hfree : ∀ {i : Nat} {n : Node α}, net.nodes[i]? = some n → n.access = .free)
    {margin : α} {limit : Int} {indexLimit : Nat} {cause : Error α}
    (h : solve margin limit indexLimit net = .error cause after) : after = net := by
  have hwf := wellFormed_of_reachable hnet
  rcases solve_cases margin limit indexLimit net with ⟨e, he⟩ | ⟨guess, saved, -, hsaved, hsolve⟩
  · rw [he] at h
    cases h
    rfl
  · rw [hsolve] at h
    unfold restoring at h
    cases hbody : solveFrom (guess.map fun u => balanceResidual u.1) guess
        (.ofMargin margin limit) net with
    | ok sol net₁ =>
      rw [hbody] at h
      cases h
    | error e net₁ =>
      -- The failed attempt has kept the frame, so the saved potentials can be given back.
      have hframe : net₁.frame = net.frame := (keeps_solveFrom hwf).of_error rfl hbody
      have hrestore : restore saved net₁ = .ok () net :=
        restoreFrom_eq_ok hfree hframe (snapshot_eq_ok hsaved) (by simp)
      rw [hbody] at h
      dsimp only at h
      rw [hrestore] at h
      cases h
      rfl

/-- One iterate is too few for the `divider`, which is left as it was before. -/
theorem divider_of_solve_eq_error : ∃ cause after,
    solve (mkRat 1 10000) 1 ComponentIndex.usualLimit divider = .error cause after ∧
      after = divider := by
  have herror : succeeded (solve (mkRat 1 10000) 1 ComponentIndex.usualLimit divider) = false := by
    decide +kernel
  obtain ⟨cause, after, h⟩ := succeeded_eq_false_iff.mp herror
  have hord := orderly_of_reachable reachable_divider
  exact ⟨cause, after, h, eq_of_solve_eq_error reachable_divider hord.free h⟩

end FluxBalance.Network
