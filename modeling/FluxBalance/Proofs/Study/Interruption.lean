import Mathlib.Order.Nat
import FluxBalance.Proofs.Study.Forgetting

/-!
# Giving back potentials while somebody is inside a node

After a failed attempt at solving, the potentials are given back in the order of the nodes. A node
that somebody is inside cannot be written to, be it to give it back what it has anyway, so the
giving back ends at the first such node. The nodes up to this one are as before the attempt; the
nodes behind it stay as the attempt has left them. And the failure that is reported is the conflict
at this node, whatever the attempt has failed for.

No trace is left where the attempt could not write: at nodes that somebody is inside, and at locked
nodes that no element drives.

## Main definitions and results

* `FirstRead`: the first node that somebody is inside;
* `Interrupted`, `interrupted_of_solve`: what a failed attempt leaves if somebody reads a node;
* `exists_potential_not_restored`: in the network `watched` a potential is not given back.
-/

namespace FluxBalance

open FluxBalance.Computation

variable {α : Type}

/-! ### Nodes that somebody is inside -/

namespace Network

variable {net after : Network α} {i : Nat} {n : Node α}

/-- Somebody who is inside a node keeps it from being changed. -/
private theorem keeps_occupied_changeNode (hn : n.access ≠ .free) (index : Int)
    (step : Node α → Except (Error α) (Node α)) :
    Keeps (fun net : Network α => net.nodes[i]? = some n) (changeNode index (·.change step)) := by
  refine keeps_changeNode fun net j m m' hnet _ hm hm' => ?_
  have hne : j ≠ i := by
    rintro rfl
    rw [hnet] at hm
    cases hm
    exact hn (Node.change_eq_ok_iff.mp hm').1
  rw [getElem?_nodes_setNode (Array.getElem?_eq_some_iff.mp hm).1, if_neg hne]
  exact hnet

variable [Scalar α]

/-- Writing unknowns does not change a node that someone is inside. -/
private theorem keeps_occupied_writeUnknowns (hn : n.access ≠ .free) :
    ∀ x : Unknowns α, Keeps (fun net => net.nodes[i]? = some n) (writeUnknowns x)
  | [] => .pure ()
  | (u, _) :: rest =>
    .bind (keeps_occupied_changeNode hn u.node _) fun _ => keeps_occupied_writeUnknowns hn rest

/-- A pass does not change a node that someone is inside. -/
private theorem keeps_occupied_settlePass (hn : n.access ≠ .free) :
    ∀ es : List (Element α), Keeps (fun net => net.nodes[i]? = some n) (settlePass es)
  | [] => .pure false
  | e :: es =>
    .bind (.bind (keeps_look _) fun _ => .bind (keeps_look _) fun _ => .bind (keeps_look _) fun _ =>
      .bind (keeps_occupied_changeNode hn e.driven _) fun _ => .pure _) fun _ =>
        .bind (keeps_occupied_settlePass hn es) fun _ => .pure _

/-- Passes do not change a node that someone is inside. -/
private theorem keeps_occupied_settleWithin (hn : n.access ≠ .free) (es : List (Element α)) :
    ∀ k, Keeps (fun net => net.nodes[i]? = some n) (settleWithin es k)
  | 0 => .pure ()
  | k + 1 => by
    refine .bind (keeps_occupied_settlePass hn es) fun changed => ?_
    cases changed with
    | true => exact keeps_occupied_settleWithin hn es k
    | false => exact .pure ()

/-- Settling does not change a node that someone is inside. -/
private theorem keeps_occupied_settle (hn : n.access ≠ .free) :
    Keeps (fun net : Network α => net.nodes[i]? = some n) settle := fun net =>
  keeps_occupied_settleWithin hn net.drivers net.drivers.length net

/-- **No attempt at solving changes a node that somebody is inside.** -/
theorem keeps_occupied_solveFrom (hn : n.access ≠ .free) (guess : Unknowns α)
    (cfg : Newton.Config α) :
    Keeps (fun net => net.nodes[i]? = some n)
      (solveFrom (guess.map fun u => balanceResidual u.1) guess cfg) := by
  have hresiduals : Newton.ResidualsKeep (fun net : Network α => net.nodes[i]? = some n)
      (fun _ => True) (guess.map fun u => balanceResidual u.1) := by
    intro r hr x _
    obtain ⟨u, -, rfl⟩ := List.mem_map.mp hr
    exact .bind (keeps_occupied_writeUnknowns hn x) fun _ =>
      .bind (keeps_occupied_settle hn) fun _ =>
        .bind ((leaves_discrepancy _).keeps _) fun _ => keeps_look _
  exact .bind (Newton.keeps_solveSystem hresiduals (Newton.over_true guess) cfg _) fun x =>
    .bind (keeps_occupied_writeUnknowns hn x) fun _ => .bind (keeps_occupied_settle hn) fun _ =>
      leaves_readOff.keeps _

/-! ### Giving back -/

/-- Giving back the potentials from position `i` on ends at the first node behind which it cannot
enter. The nodes before it are as before. -/
private theorem restoreFrom_eq_error {p : Nat} (hp : net.nodes[p]? = some n)
    {conflict : BorrowConflict} (hconflict : n.access.enterExclusive = .error conflict)
    (hfree : ∀ j < p, ∀ m, net.nodes[j]? = some m → m.access = .free) :
    ∀ {ps : List (DenseMatrix α)} {i : Nat} {a : Network α}, i ≤ p → a.frame = net.frame →
      ps = (net.nodes.toList.drop i).map Node.potential →
      ∃ after, restoreFrom i ps a = .error (.borrow conflict) after ∧ after.frame = net.frame ∧
        ∀ j, after.nodes[j]? = if i ≤ j ∧ j < p then net.nodes[j]? else a.nodes[j]?
  | [], i, a, hip, _, hps => by
    have hsize : net.nodes.size ≤ i := by
      simpa using List.map_eq_nil_iff.mp hps.symm
    have hlt := (Array.getElem?_eq_some_iff.mp hp).1
    omega
  | q :: ps, i, a, hip, hframe, hps => by
    have hi : i < net.nodes.size := hip.trans_lt (Array.getElem?_eq_some_iff.mp hp).1
    rw [List.drop_eq_getElem_cons (by simpa using hi), List.map_cons, List.cons.injEq,
      Array.getElem_toList] at hps
    obtain ⟨rfl, hps⟩ := hps
    rw [restoreFrom, bind_apply]
    by_cases hpi : i = p
    · -- This is the node.
      subst hpi
      rw [changeNode_giveBack_eq_error hframe hp hconflict]
      exact ⟨a, rfl, hframe, fun j => (if_neg (by omega)).symm⟩
    · have hlt : i < p := by omega
      have hi := Array.getElem?_eq_getElem hi
      obtain ⟨b, hb, hbframe, hnodes⟩ :=
        changeNode_giveBack_eq_ok hframe hi (hfree i hlt _ hi)
      obtain ⟨after, h, hafter, hall⟩ := restoreFrom_eq_error hp hconflict hfree hlt hbframe hps
      rw [hb]
      refine ⟨after, h, hafter, fun j => ?_⟩
      rw [hall, hnodes]
      by_cases hij : i = j
      · rw [if_neg (by omega), if_pos hij, if_pos ⟨hij.le, hij ▸ hlt⟩]
      · rw [if_neg hij]
        exact if_congr (by omega) rfl rfl

/-! ### Failed attempts -/

/-- The first node that somebody is inside has this many readers. -/
structure FirstRead (net : Network α) (p readers : Nat) : Prop where
  node : ∃ n, net.nodes[p]? = some n ∧ n.access = .shared readers ∧ 0 < readers
  free : ∀ j < p, ∀ m, net.nodes[j]? = some m → m.access = .free

/-- What a failed attempt leaves if giving back the potentials has ended at node `p`. -/
structure Interrupted (net attempted after : Network α) (p : Nat) : Prop where
  frame : after.frame = net.frame
  /-- The nodes up to this one are as before. -/
  restored : ∀ i ≤ p, after.nodes[i]? = net.nodes[i]?
  /-- The nodes behind it are as the attempt has left them. -/
  left : ∀ i > p, after.nodes[i]? = attempted.nodes[i]?
  /-- Nothing has been written to a node that somebody is inside. -/
  occupied : ∀ {i : Nat} {n : Node α}, net.nodes[i]? = some n → n.access ≠ .free →
    after.nodes[i]? = some n
  /-- Nothing has been written to the `Boundary`. -/
  boundary : ∀ {i : Nat}, net.Boundary i → after.nodes[i]? = net.nodes[i]?

omit [Scalar α] in
/-- If somebody is inside a node and all nodes can be read, there is a first node with readers. -/
private theorem exists_firstRead (hread : net.Readable) (hn : net.nodes[i]? = some n)
    (hoccupied : n.access ≠ .free) : ∃ p readers, net.FirstRead p readers := by
  classical
  have hex : ∃ p, ∃ m : Node α, net.nodes[p]? = some m ∧ m.access ≠ .free := ⟨i, n, hn, hoccupied⟩
  obtain ⟨m, hm, hmoccupied⟩ := Nat.find_spec hex
  cases haccess : m.access with
  | exclusive => exact absurd haccess (hread hm)
  | shared readers =>
    refine ⟨Nat.find hex, readers, ⟨m, hm, haccess, Nat.pos_of_ne_zero ?_⟩, fun j hj q hq => ?_⟩
    · rintro rfl
      exact hmoccupied haccess
    · exact not_not.mp fun hne => Nat.find_min hex hj ⟨q, hq, hne⟩

/-- An attempt at solving writes to nodes of unknowns and to driven ones. -/
private theorem keeps_solveFrom_differsIn {K : ComponentIndex → Prop} {F : Network α}
    (hF : F.WellFormed) {guess : Unknowns α} (hguess : Newton.Over K guess)
    (cfg : Newton.Config α) :
    Keeps (DiffersIn K F) (solveFrom (guess.map fun u => balanceResidual u.1) guess cfg) := by
  refine .bind_of_ok (Newton.keeps_solveSystem (residualsKeep hF guess) hguess cfg _)
    fun x ⟨s, s', hx⟩ => ?_
  have hkeys := (Newton.converged_of_solveSystem (Newton.residualsKeep_true _)
    (Newton.over_true guess) trivial hx).keys
  have hover : Newton.Over K x := by
    rw [Newton.over_iff_keys, hkeys]
    exact Newton.over_iff_keys.mp hguess
  exact .bind (keeps_writeUnknowns hover) fun _ => .bind (keeps_settle_differsIn hF) fun _ =>
    leaves_readOff.keeps _

/-- Solving fails before anything is attempted, or the attempt fails. Then it is the failure of the
attempt that is reported, unless the potentials cannot be given back. -/
private theorem solve_eq_error {margin : α} {limit : Int} {indexLimit : Nat} {cause : Error α}
    (h : solve margin limit indexLimit net = .error cause after) :
    (after = net ∧ (net.generateSystem indexLimit = .error cause ∨ net.snapshot = .error cause)) ∨
      ∃ (guess : Unknowns α) (saved : List (DenseMatrix α)) (failure : Error α)
        (attempted : Network α),
        net.generateSystem indexLimit = .ok (guess.map fun u => balanceResidual u.1, guess) ∧
        net.snapshot = .ok saved ∧
        solveFrom (guess.map fun u => balanceResidual u.1) guess (.ofMargin margin limit) net =
          .error failure attempted ∧
        ((cause = failure ∧ restore saved attempted = .ok () after) ∨
          restore saved attempted = .error cause after) := by
  rcases bind_eq_error.mp h with hlook | ⟨⟨rs, guess⟩, net₁, hlook, h⟩
  · obtain ⟨hsystem, rfl⟩ := look_eq_error_iff.mp hlook
    exact .inl ⟨rfl, .inl hsystem⟩
  obtain ⟨hsystem, rfl⟩ := look_eq_ok_iff.mp hlook
  obtain ⟨-, rfl⟩ := generateSystem_eq_ok hsystem
  rcases bind_eq_error.mp h with hlook | ⟨saved, net₁, hlook, h⟩
  · obtain ⟨hsaved, rfl⟩ := look_eq_error_iff.mp hlook
    exact .inl ⟨rfl, .inr hsaved⟩
  obtain ⟨hsaved, rfl⟩ := look_eq_ok_iff.mp hlook
  -- The equations have been set up and the potentials saved, so it is the attempt that fails.
  unfold restoring at h
  cases hbody : solveFrom (guess.map fun u => balanceResidual u.1) guess (.ofMargin margin limit)
      net with
  | ok sol attempted =>
    rw [hbody] at h
    cases h
  | error failure attempted =>
    refine .inr ⟨guess, saved, failure, attempted, hsystem, hsaved, hbody, ?_⟩
    rw [hbody] at h
    dsimp only at h
    cases hrestore : restore saved attempted with
    | ok u s =>
      rw [hrestore] at h
      cases h
      exact .inl ⟨rfl, rfl⟩
    | error e s =>
      rw [hrestore] at h
      cases h
      exact .inr rfl

/-- Giving back the potentials after a failed attempt ends at the first node with readers. -/
private theorem interrupted_of_restore (hwf : net.WellFormed) {guess : Unknowns α}
    (hguess : net.unknowns = .ok guess) {cfg : Newton.Config α} {failure : Error α}
    {attempted : Network α}
    (hbody : solveFrom (guess.map fun u => balanceResidual u.1) guess cfg net =
      .error failure attempted) {p readers : Nat} (hfirst : net.FirstRead p readers) :
    ∃ after, restore (net.nodes.toList.map Node.potential) attempted =
      .error (.borrow (.readers readers)) after ∧ net.Interrupted attempted after p := by
  obtain ⟨m, hm, haccess, hpos⟩ := hfirst.node
  have hoccupied : m.access ≠ .free := by
    rw [haccess]
    simp [Access.free, hpos.ne']
  have hconflict : m.access.enterExclusive = .error (.readers readers) := by
    obtain ⟨r, rfl⟩ : ∃ r, readers = r + 1 := ⟨readers - 1, by omega⟩
    rw [haccess]
    rfl
  -- The attempt has changed unknowns and what is derived from them, and no node that somebody is
  -- inside.
  have hdiffers : DiffersIn net.IsUnknown net attempted :=
    (keeps_solveFrom_differsIn hwf (over_isUnknown_of_unknowns hguess) _).of_error (.refl _ net)
      hbody
  have hkept {j : Nat} {q : Node α} (hq : net.nodes[j]? = some q) (hne : q.access ≠ .free) :
      attempted.nodes[j]? = some q := (keeps_occupied_solveFrom hne guess _).of_error hq hbody
  have hpotentials : net.nodes.toList.map Node.potential =
      (net.nodes.toList.drop 0).map Node.potential := rfl
  obtain ⟨after, hrestore, hframe, hall⟩ := restoreFrom_eq_error hm hconflict hfirst.free
    (Nat.zero_le p) hdiffers.frame hpotentials
  refine ⟨after, hrestore, hframe, fun j hj => ?_, fun j hj => ?_, fun {j q} hq hne => ?_,
    fun {j} hj => ?_⟩
  · rw [hall]
    rcases Nat.lt_or_eq_of_le hj with hj | rfl
    · rw [if_pos ⟨Nat.zero_le j, hj⟩]
    · rw [if_neg (by omega), hm]
      exact hkept hm hoccupied
  · rw [hall, if_neg (by omega)]
  · rw [hall, hq, hkept hq hne, ite_self]
  · rw [hall, hdiffers.node (fun c => hj.not_isUnknown c) hj.choose_spec.2.2, ite_self]

/-- **A failed attempt at solving is not undone behind a node with readers.** Let somebody read a
node of a `Reachable` network, and let solving fail. Either nothing has been attempted, because the
equations cannot be set up or somebody writes to a node; then nothing has changed. Or the attempt
has failed and giving back the potentials has ended at the first node with readers: the conflict at
this node is reported, whatever the attempt has failed for, the nodes up to it and all nodes that
could not be written to are as before, and the nodes behind it are as the attempt has left them. -/
theorem interrupted_of_solve {allowed : Move α → Prop} (hnet : Reachable allowed net)
    (hn : net.nodes[i]? = some n) {k : Nat} (hread : n.access = .shared (k + 1)) {margin : α}
    {limit : Int} {indexLimit : Nat} {cause : Error α}
    (h : solve margin limit indexLimit net = .error cause after) :
    (after = net ∧ (net.generateSystem indexLimit = .error cause ∨ net.snapshot = .error cause)) ∨
      ∃ (guess : Unknowns α) (failure : Error α) (attempted : Network α) (p readers : Nat),
        net.generateSystem indexLimit = .ok (guess.map fun u => balanceResidual u.1, guess) ∧
        solveFrom (guess.map fun u => balanceResidual u.1) guess (.ofMargin margin limit) net =
          .error failure attempted ∧
        net.FirstRead p readers ∧ cause = .borrow (.readers readers) ∧
        net.Interrupted attempted after p := by
  refine (solve_eq_error h).imp id ?_
  rintro ⟨guess, saved, failure, attempted, hsystem, hsaved, hbody, hend⟩
  have hoccupied : n.access ≠ .free := by simp [hread, Access.free]
  obtain ⟨p, readers, hfirst⟩ := exists_firstRead (readable_of_snapshot hsaved) hn hoccupied
  obtain ⟨after', hrestore, hinterrupted⟩ := interrupted_of_restore (wellFormed_of_reachable hnet)
    (generateSystem_eq_ok hsystem).1 hbody hfirst
  rw [← snapshot_eq_ok hsaved] at hrestore
  rcases hend with ⟨-, hend⟩ | hend
  · rw [hrestore] at hend
    cases hend
  · rw [hrestore] at hend
    cases hend
    exact ⟨guess, failure, attempted, p, readers, hsystem, hbody, hfirst, rfl, hinterrupted⟩

/-- A grounded node that somebody reads, and two nodes behind it, the first of which is fed with a
constant flux that cannot go anywhere. -/
def watched : Network Rat :=
  [Move.addElement (.kind .constantFlux) [] none 0 1 (.number 1), .enter .shared 0].foldl Move.after
    grounded

private theorem reachable_watched : Reachable (fun _ => True) watched := by
  have hregular : Catalogue.Regular ([] : Catalogue Rat) := by simp [Catalogue.Regular]
  have hgrounded : Reachable (fun _ => True) grounded := reachable_grounded.mono fun _ _ => trivial
  refine hgrounded.foldl fun m hm => ?_
  rcases List.mem_cons.mp hm with rfl | hm
  · exact ⟨⟨trivial, hregular⟩, trivial⟩
  · obtain rfl := List.mem_singleton.mp hm
    exact ⟨trivial, trivial⟩

/-- The attempt at solving it fails, and the last node is left where its column of the Jacobian has
been estimated. -/
private theorem left_watched : ∃ (cause : Error Rat) (after : Network Rat),
    solve (mkRat 1 10000) 100 ComponentIndex.usualLimit watched = .error cause after ∧
      after.potentialAt 2 0 ≠ watched.potentialAt 2 0 := by
  have hfailed :
      succeeded (solve (mkRat 1 10000) 100 ComponentIndex.usualLimit watched) = false := by
    decide +kernel
  have hleft :
      (finalState (solve (mkRat 1 10000) 100 ComponentIndex.usualLimit watched)).potentialAt 2 0 ≠
        watched.potentialAt 2 0 := by
    decide +kernel
  obtain ⟨cause, after, h⟩ := succeeded_eq_false_iff.mp hfailed
  rw [h] at hleft
  exact ⟨cause, after, h, hleft⟩

/-- Its Jacobian is singular, but what is reported is that somebody reads the grounded node. -/
theorem interrupted_watched :
    ∃ (guess : Unknowns Rat) (outcome : InversionOutcome) (attempted after : Network Rat),
      solveFrom (guess.map fun u => balanceResidual u.1) guess (.ofMargin (mkRat 1 10000) 100)
        watched = .error (.singularJacobian outcome) attempted ∧
      solve (mkRat 1 10000) 100 ComponentIndex.usualLimit watched =
        .error (.borrow (.readers 1)) after ∧
      watched.Interrupted attempted after 0 := by
  obtain ⟨n, hn, hread⟩ : ∃ n, watched.nodes[0]? = some n ∧ n.access = .shared 1 := ⟨_, rfl, rfl⟩
  have hsystem : watched.generateSystem ComponentIndex.usualLimit =
      .ok ([balanceResidual ⟨1, 0⟩, balanceResidual ⟨2, 0⟩], [(⟨1, 0⟩, 0), (⟨2, 0⟩, 0)]) := rfl
  have hsingular : (match solveFrom [balanceResidual ⟨1, 0⟩, balanceResidual ⟨2, 0⟩]
      [(⟨1, 0⟩, 0), (⟨2, 0⟩, 0)] (.ofMargin (mkRat 1 10000) 100) watched with
    | .error (.singularJacobian _) _ => true
    | _ => false) = true := by decide +kernel
  obtain ⟨cause, after, h, -⟩ := left_watched
  -- Setting up the equations and saving the potentials succeed, which leaves the third case.
  rcases interrupted_of_solve reachable_watched hn hread h with ⟨-, hrefused | hrefused⟩ |
    ⟨guess, failure, attempted, p, readers, hguess, hbody, hfirst, rfl, hinterrupted⟩
  · rw [hsystem] at hrefused
    cases hrefused
  · have hsaved : (watched.snapshot).isOk = true := rfl
    rw [hrefused] at hsaved
    cases hsaved
  · -- The grounded node is the first one that somebody is inside.
    obtain rfl : p = 0 := by
      by_contra hp
      have hfree := hfirst.free 0 (Nat.pos_of_ne_zero hp) n hn
      rw [hread] at hfree
      cases hfree
    obtain ⟨m, hm, haccess, -⟩ := hfirst.node
    rw [hn] at hm
    cases hm
    rw [hread] at haccess
    cases haccess
    rw [hsystem] at hguess
    have hguess := Except.ok.inj hguess
    rw [(Prod.mk.inj hguess).1, (Prod.mk.inj hguess).2, hbody] at hsingular
    cases failure with
    | singularJacobian outcome => exact ⟨_, outcome, attempted, after, hbody, h, hinterrupted⟩
    | _ => cases hsingular

/-- **Not every failed attempt at solving is undone** while somebody reads a node. -/
theorem exists_potential_not_restored :
    ¬ ∀ (net after : Network Rat) (i : Nat) (n : Node Rat) (k : Nat) (margin : Rat) (limit : Int)
      (cause : Error Rat), Reachable (fun _ => True) net → net.nodes[i]? = some n →
      n.access = .shared (k + 1) →
      solve margin limit ComponentIndex.usualLimit net = .error cause after →
      ∀ j c, after.potentialAt j c = net.potentialAt j c := by
  obtain ⟨n, hn, hread⟩ : ∃ n, watched.nodes[0]? = some n ∧ n.access = .shared 1 := ⟨_, rfl, rfl⟩
  obtain ⟨cause, after, h, hleft⟩ := left_watched
  intro hall
  exact hleft (hall watched after 0 n 0 _ _ cause reachable_watched hn hread h 2 0)

end Network

end FluxBalance
