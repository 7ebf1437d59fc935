import FluxBalance.Study.Configuring
import FluxBalance.Proofs.Library.Regular
import FluxBalance.Proofs.Study.Evaluation

/-!
# Networks that come about

A network starts as the nodes of a study that has been configured. Then elements are added, the
network is evaluated and solved, nodes are written to, and readers and writers enter and leave
nodes, in any order; a step that fails is a step, too, and leaves whatever it leaves. The networks
that come about in this way by moves of some kind are `Reachable` by them.

Every reachable network is `WellFormed`. As long as nobody `Enters` a node, it is `Orderly`.

## Main definitions and results

* `Move`, `Network.Reachable`: what is done to networks, and the networks that come about;
* `wellFormed_of_reachable`, `orderly_of_reachable`: they are `WellFormed`, and `Orderly` while
  nobody enters a node.
-/

namespace FluxBalance

open FluxBalance.Computation Network

variable {α : Type}

/-! ### Studies -/

/-- A network as a study hands it over: nodes that nobody is inside, and no elements yet. -/
structure Network.Pristine (net : Network α) : Prop where
  elements : net.elements = #[]
  node : ∀ {i : Nat} {n : Node α}, net.nodes[i]? = some n →
    n.potential.cols = 1 ∧ n.elements = [] ∧ n.access = .free

/-- Another free node of the same elements keeps a network `Pristine`. -/
private theorem Network.pristine_setNode {net : Network α} (h : net.Pristine) {i : Nat}
    {n n' : Node α} (hn : net.nodes[i]? = some n) (hcols : n'.potential.cols = n.potential.cols)
    (helements : n'.elements = n.elements) (haccess : n'.access = .free) :
    (net.setNode i n').Pristine := by
  refine ⟨h.elements, fun {j m} hm => ?_⟩
  rw [getElem?_nodes_setNode (Array.getElem?_eq_some_iff.mp hn).1] at hm
  split at hm
  · cases hm
    exact ⟨hcols.trans (h.node hn).1, helements.trans (h.node hn).2.1, haccess⟩
  · exact h.node hm

/-- Configuring a node keeps its `shape` and its elements and leaves it free. -/
theorem Node.configure_eq_ok {n n' : Node α} {potential : Option (DenseMatrix α)}
    {isLocked : Option Bool} {metadata : Option (List (String × Json))}
    (h : n.configure potential isLocked metadata = .ok n') :
    n'.potential.shape = n.potential.shape ∧ n'.elements = n.elements ∧ n'.access = .free := by
  have hchange : ∀ {m : Node α} {step : Node α → Node α},
      (m.change fun n => .ok (step n)) = .ok n' →
      n' = { step { m with access := .exclusive } with access := .free } := by
    intro m step hm
    obtain ⟨-, m', hm', rfl⟩ := Node.change_eq_ok_iff.mp hm
    cases hm'
    rfl
  unfold Node.configure at h
  cases potential with
  | none =>
    obtain ⟨m, hm, h⟩ := except_bind_eq_ok.mp h
    cases hm
    rw [hchange h]
    exact ⟨rfl, rfl, rfl⟩
  | some value =>
    obtain ⟨m, hm, h⟩ := except_bind_eq_ok.mp h
    obtain ⟨-, hshape, rfl⟩ := Node.setPotential_eq_ok_iff.mp hm
    rw [hchange h]
    exact ⟨hshape, rfl, rfl⟩

section

variable [Scalar α]

/-- The studies that come about by adding nodes and configuring them. -/
inductive Study.Reachable : Study α → Prop
  | new (modelType : Option String) : Study.Reachable (.new modelType)
  | addNodes {s s' : Study α} {count components : Int} {positions : Nat × Nat} :
    Study.Reachable s → s.addNodes count components = .ok (positions, s') → Study.Reachable s'
  | configureNode {s s' : Study α} {index : Int} {potential : Option (DenseMatrix α)}
    {isLocked : Option Bool} {metadata : Option (List (String × Json))} :
    Study.Reachable s → s.configureNode index potential isLocked metadata = .ok s' →
      Study.Reachable s'
  | groundNode {s s' : Study α} {index : Int} :
    Study.Reachable s → s.groundNode index = .ok s' → Study.Reachable s'

omit [Scalar α] in
theorem Study.live_eq_ok_iff {s : Study α} {net : Network α} :
    s.live = .ok net ↔ s.network? = some net := by
  unfold Study.live
  cases s.network? <;> simp

omit [Scalar α] in
/-- Changing a node of a study changes it in the network. -/
theorem Study.changeNode_eq_ok {s s' : Study α} {index : Int}
    {step : Node α → Except (Error α) (Node α)} (h : s.changeNode index step = .ok s') :
    ∃ (net : Network α) (i : Nat) (n n' : Node α), s.network? = some net ∧
      net.nodes[i]? = some n ∧ step n = .ok n' ∧ s'.network? = some (net.setNode i n') := by
  obtain ⟨net, hnet, h⟩ := except_bind_eq_ok.mp h
  obtain ⟨net', hnet', h⟩ := except_bind_eq_ok.mp h
  cases h
  obtain ⟨i, n, n', -, hn, hn', rfl⟩ := changed_eq_ok_iff.mp hnet'
  exact ⟨net, i, n, n', Study.live_eq_ok_iff.mp hnet, hn, hn', rfl⟩

/-- Nodes are added to a study as zeros behind the others; none if their number is not positive. -/
theorem Study.addNodes_eq_ok {s s' : Study α} {count components : Int} {positions : Nat × Nat}
    (h : s.addNodes count components = .ok (positions, s')) :
    ∃ net, s.network? = some net ∧ (count ≤ 0 ∧ s' = s ∨ ¬ components < 1 ∧ s'.network? =
      some { net with
        nodes := net.nodes ++ Array.replicate count.toNat (.zero components.toNat) }) := by
  unfold Study.addNodes at h
  obtain ⟨net, hlive, h⟩ := except_bind_eq_ok.mp h
  refine ⟨net, Study.live_eq_ok_iff.mp hlive, ?_⟩
  dsimp only at h
  split at h
  · rename_i hcount
    cases h
    exact .inl ⟨hcount, rfl⟩
  · obtain ⟨n, hn, h⟩ := except_bind_eq_ok.mp h
    cases h
    unfold Node.new at hn
    split at hn
    · cases hn
    · rename_i hcomponents
      cases hn
      exact .inr ⟨hcomponents, rfl⟩

/-- The network of a study is `Pristine` until it is handed over. -/
theorem Study.pristine_of_reachable {s : Study α} (h : s.Reachable) :
    ∀ {net}, s.network? = some net → net.Pristine := by
  induction h with
  | new modelType =>
    intro net hnet
    cases hnet
    exact ⟨rfl, by simp [Network.empty]⟩
  | addNodes hs hadd ih =>
    intro net hnet
    obtain ⟨net₀, hnet₀, ⟨-, rfl⟩ | ⟨-, hset⟩⟩ := Study.addNodes_eq_ok hadd
    · exact ih hnet
    · rw [hnet] at hset
      cases hset
      -- A node is an old one or a new one, which is empty.
      refine ⟨(ih hnet₀).elements, fun {i m} hm => ?_⟩
      rcases Array.mem_append.mp (Array.mem_of_getElem? hm) with hm | hm
      · obtain ⟨j, hj⟩ := Array.mem_iff_getElem?.mp hm
        exact (ih hnet₀).node hj
      · obtain ⟨-, rfl⟩ := Array.mem_replicate.mp hm
        exact ⟨rfl, rfl, rfl⟩
  | configureNode hs hconf ih =>
    intro net hnet
    obtain ⟨net₀, i, n, n', hnet₀, hn, hn', hset⟩ := Study.changeNode_eq_ok hconf
    rw [hnet] at hset
    cases hset
    obtain ⟨hshape, helements, haccess⟩ := Node.configure_eq_ok hn'
    exact pristine_setNode (ih hnet₀) hn (congrArg Prod.snd hshape) helements haccess
  | groundNode hs hground ih =>
    intro net hnet
    obtain ⟨net₀, i, n, n', hnet₀, hn, hn', hset⟩ := Study.changeNode_eq_ok hground
    rw [hnet] at hset
    cases hset
    obtain ⟨hfree, rfl⟩ := Node.ground_eq_ok_iff.mp hn'
    exact pristine_setNode (ih hnet₀) hn ((ih hnet₀).node hn).1.symm rfl hfree

/-! ### Moves -/

/-- What is done to a network after it has been handed over. -/
inductive Move (α : Type) where
  | addElement (spec : ElementSpec α) (catalogue : Catalogue α) (modelType : Option String)
    (input output : Int) (gain : Gain α)
  | evaluate (i : ComponentIndex) (x : Unknowns α)
  | solve (margin : α) (limit : Int) (indexLimit : Nat)
  | setPotential (index : Int) (value : DenseMatrix α)
  | setComponent (index component : Int) (value : α)
  | lock (index : Int)
  | ground (index : Int)
  | enter (guard : Guard) (index : Int)
  | leave (guard : Guard) (index : Nat)

namespace Move

/-- The network after the move, whether the move has succeeded or failed. -/
def after (net : Network α) : Move α → Network α
  | addElement spec c modelType input output gain =>
    finalState (spec.add c modelType input output gain net)
  | evaluate i x => finalState (balance i x net)
  | solve margin limit indexLimit => finalState (Network.solve margin limit indexLimit net)
  | setPotential index value => finalState (changeNode index (·.setPotential value) net)
  | setComponent index c value => finalState (changeNode index (·.setComponent c value) net)
  | lock index => finalState (changeNode index Node.lock net)
  | ground index => finalState (changeNode index Node.ground net)
  | enter guard index => finalState (changeNode index (·.enter guard) net)
  | leave guard index => { net with nodes := net.nodes.modify index (·.leave guard) }

/-- Elements are made by regular constructors only. -/
def Regular : Move α → Prop
  | addElement spec c .. => spec.Regular ∧ c.Regular
  | _ => True

/-- Somebody enters a node and stays. -/
def Enters : Move α → Prop
  | enter .. => True
  | _ => False

end Move

/-- The networks that come about by moves of the given kind. -/
inductive Network.Reachable (allowed : Move α → Prop) : Network α → Prop
  | configured {s s' : Study α} {net : Network α} :
    s.Reachable → s.configure = .ok (net, s') → Network.Reachable allowed net
  | moved {net : Network α} {m : Move α} :
    Network.Reachable allowed net → m.Regular → allowed m → Network.Reachable allowed (m.after net)

/-! ### What every move keeps -/

omit [Scalar α] in
theorem wellFormed_of_pristine {net : Network α} (h : net.Pristine) : net.WellFormed where
  column hn := (h.node hn).1
  fits he := by simp [h.elements] at he
  registered hn := by simp [(h.node hn).2.1, registeredAt, h.elements]

omit [Scalar α] in
theorem orderly_of_pristine {net : Network α} (h : net.Pristine) : net.Orderly where
  free hn := (h.node hn).2.2
  locked he := by simp [h.elements] at he
  driven_inj he := by simp [h.elements] at he

theorem pristine_of_configure {s s' : Study α} {net : Network α} (hs : s.Reachable)
    (h : s.configure = .ok (net, s')) : net.Pristine := by
  obtain ⟨net', hlive, h⟩ := except_bind_eq_ok.mp h
  cases h
  exact Study.pristine_of_reachable hs (Study.live_eq_ok_iff.mp hlive)

/-- What adding an element leaves: nothing has changed, or an element that fits has been joined. -/
theorem after_addElement {spec : ElementSpec α} {c : Catalogue α} (hspec : spec.Regular)
    (hc : c.Regular) (modelType : Option String) (input output : Int) (gain : Gain α)
    (net : Network α) :
    finalState (spec.add c modelType input output gain net) = net ∨
      ∃ e : Element α, e.Made net ∧
        finalState (spec.add c modelType input output gain net) =
          finalState (addElement e net) := by
  unfold ElementSpec.add
  rw [bind_apply, NetworkAction.look]
  cases hmake : spec.make c modelType net input output gain with
  | error cause => exact .inl rfl
  | ok e => exact .inr ⟨e, ElementSpec.made_of_make hspec hc hmake, rfl⟩

omit [Scalar α] in
/-- Whoever leaves a node that exists changes that node. -/
theorem modify_eq_setNode {net : Network α} {i : Nat} {n : Node α} (hn : net.nodes[i]? = some n)
    (f : Node α → Node α) :
    ({ net with nodes := net.nodes.modify i f } : Network α) = net.setNode i (f n) := by
  obtain ⟨hi, rfl⟩ := Array.getElem?_eq_some_iff.mp hn
  have hnodes : net.nodes.modify i f = net.nodes.setIfInBounds i (f net.nodes[i]) := by
    refine Array.ext (by simp) fun j hj _ => ?_
    rw [Array.getElem_modify, Array.getElem_setIfInBounds (by simpa using hj)]
    split
    · rename_i hij
      subst hij
      rfl
    · rfl
  rw [setNode, hnodes]

omit [Scalar α] in
/-- There is nothing to modify where there is no node. -/
theorem modify_of_none {net : Network α} {i : Nat} (hn : net.nodes[i]? = none)
    (f : Node α → Node α) : ({ net with nodes := net.nodes.modify i f } : Network α) = net := by
  have hnodes : net.nodes.modify i f = net.nodes := by
    refine Array.ext (by simp) fun j hj hj' => ?_
    have hij : i ≠ j := by
      rintro rfl
      rw [Array.getElem?_eq_getElem hj'] at hn
      cases hn
    rw [Array.getElem_modify, if_neg hij]
  rw [hnodes]

/-- The moves that change one node. -/
inductive Move.ChangesNode : Move α → Int → (Node α → Except (Error α) (Node α)) → Prop
  | setPotential (index : Int) (value : DenseMatrix α) :
    ChangesNode (.setPotential index value) index (·.setPotential value)
  | setComponent (index component : Int) (value : α) :
    ChangesNode (.setComponent index component value) index (·.setComponent component value)
  | lock (index : Int) : ChangesNode (.lock index) index Node.lock
  | ground (index : Int) : ChangesNode (.ground index) index Node.ground
  | enter (guard : Guard) (index : Int) : ChangesNode (.enter guard index) index (·.enter guard)

/-- A move that changes a node does what `changeNode` does. -/
theorem Move.ChangesNode.after_eq {m : Move α} {index : Int}
    {step : Node α → Except (Error α) (Node α)} (h : m.ChangesNode index step) (net : Network α) :
    m.after net = finalState (changeNode index step net) := by
  cases h <;> rfl

/-- A change of a node keeps its `shape` and its elements. -/
theorem Move.ChangesNode.keeps {m : Move α} {index : Int}
    {step : Node α → Except (Error α) (Node α)} (h : m.ChangesNode index step) {n n' : Node α}
    (hcols : n.potential.cols = 1) (hn' : step n = .ok n') :
    n'.potential.shape = n.potential.shape ∧ n'.elements = n.elements ∧
      (n.isLocked = true → n'.isLocked = true) ∧ (¬m.Enters → n'.access = n.access) := by
  cases h with
  | setPotential value =>
    obtain ⟨-, hshape, rfl⟩ := Node.setPotential_eq_ok_iff.mp hn'
    exact ⟨hshape, rfl, id, fun _ => rfl⟩
  | setComponent component value =>
    obtain ⟨-, p, hp, rfl⟩ := Node.setComponent_eq_ok_iff.mp hn'
    obtain ⟨r, c, -, -, -, -, rfl⟩ := DenseMatrix.set_eq_ok_iff.mp hp
    exact ⟨rfl, rfl, id, fun _ => rfl⟩
  | lock =>
    obtain ⟨-, rfl⟩ := Node.lock_eq_ok_iff.mp hn'
    exact ⟨rfl, rfl, fun _ => rfl, fun _ => rfl⟩
  | ground =>
    obtain ⟨-, rfl⟩ := Node.ground_eq_ok_iff.mp hn'
    refine ⟨?_, rfl, fun _ => rfl, fun _ => rfl⟩
    rw [DenseMatrix.shape, DenseMatrix.shape, hcols]
    rfl
  | enter guard =>
    have henter : n.enter guard = .ok n' := hn'
    unfold Node.enter at henter
    split at henter
    · cases henter
      exact ⟨rfl, rfl, id, fun h => absurd trivial h⟩
    · cases henter

/-- Every `Regular` move keeps a network `WellFormed`. -/
private theorem wellFormed_after {net : Network α} (hwf : net.WellFormed) {m : Move α}
    (hm : m.Regular) : (m.after net).WellFormed := by
  have hchange : ∀ {index step}, m.ChangesNode index step → (m.after net).WellFormed := by
    intro index step hstep
    rw [hstep.after_eq]
    refine keeps_changeNode (fun net i n n' hwf _ hn hn' => ?_) net hwf
    obtain ⟨hshape, helements, -, -⟩ := hstep.keeps (hwf.column hn) hn'
    exact wellFormed_setNode hwf hn hshape helements
  cases m with
  | addElement spec c modelType input output gain =>
    rw [Move.after]
    rcases after_addElement hm.1 hm.2 modelType input output gain net with h | ⟨e, hmade, h⟩
    · rw [h]
      exact hwf
    · rw [h]
      exact wellFormed_addElement hwf hmade
  | evaluate i x => exact hwf.of_frame_eq (frame_balance hwf i x).symm
  | solve margin limit indexLimit =>
    exact hwf.of_frame_eq (frame_solve hwf margin limit indexLimit).symm
  | setPotential index value => exact hchange (.setPotential index value)
  | setComponent index component value => exact hchange (.setComponent index component value)
  | lock index => exact hchange (.lock index)
  | ground index => exact hchange (.ground index)
  | enter guard index => exact hchange (.enter guard index)
  | leave guard index =>
    rw [Move.after]
    cases hn : net.nodes[index]? with
    | none => rw [modify_of_none hn]; exact hwf
    | some n => rw [modify_eq_setNode hn]; exact wellFormed_setNode hwf hn rfl rfl

/-- Every `Regular` move that `Enters` no node keeps a network `Orderly`. -/
private theorem orderly_after {net : Network α} (hwf : net.WellFormed) (hord : net.Orderly)
    {m : Move α} (hm : m.Regular) (halone : ¬m.Enters) : (m.after net).Orderly := by
  have hchange : ∀ {index step}, m.ChangesNode index step → (m.after net).Orderly := by
    intro index step hstep
    rw [hstep.after_eq]
    refine (keeps_changeNode (P := fun net => net.WellFormed ∧ net.Orderly)
      (fun net i n n' h _ hn hn' => ?_) net ⟨hwf, hord⟩).2
    obtain ⟨hshape, helements, hlocked, haccess⟩ := hstep.keeps (h.1.column hn) hn'
    exact ⟨wellFormed_setNode h.1 hn hshape helements,
      orderly_setNode h.2 hn ((haccess halone).trans (h.2.free hn)) hlocked⟩
  cases m with
  | addElement spec c modelType input output gain =>
    rw [Move.after]
    rcases after_addElement hm.1 hm.2 modelType input output gain net with h | ⟨e, hmade, h⟩
    · rw [h]
      exact hord
    · rw [h]
      exact orderly_addElement hwf hord hmade
  | evaluate i x => exact hord.of_frame_eq (frame_balance hwf i x).symm
  | solve margin limit indexLimit =>
    exact hord.of_frame_eq (frame_solve hwf margin limit indexLimit).symm
  | setPotential index value => exact hchange (.setPotential index value)
  | setComponent index component value => exact hchange (.setComponent index component value)
  | lock index => exact hchange (.lock index)
  | ground index => exact hchange (.ground index)
  | enter guard index => exact absurd trivial halone
  | leave guard index =>
    rw [Move.after]
    cases hn : net.nodes[index]? with
    | none => rw [modify_of_none hn]; exact hord
    | some n =>
      rw [modify_eq_setNode hn]
      -- Nobody is inside the node, so leaving it changes nothing.
      refine orderly_setNode hord hn ?_ id
      have hfree := hord.free hn
      cases guard <;> simp [Node.leave, hfree, Access.free, Access.leave]

/-! ### Reachable networks -/

/-- Further moves of the allowed kind stay among the `Reachable` networks. -/
theorem Network.Reachable.foldl {allowed : Move α → Prop} {net : Network α}
    (h : Reachable allowed net) {ms : List (Move α)} (hms : ∀ m ∈ ms, m.Regular ∧ allowed m) :
    Reachable allowed (ms.foldl Move.after net) := by
  induction ms generalizing net with
  | nil => exact h
  | cons m ms ih =>
    obtain ⟨hregular, hallowed⟩ := hms m List.mem_cons_self
    exact ih (.moved h hregular hallowed) fun m' hm' => hms m' (List.mem_cons_of_mem m hm')

/-- If more moves are allowed, more networks are `Reachable`. -/
theorem Network.Reachable.mono {allowed allowed' : Move α → Prop} {net : Network α}
    (h : Reachable allowed net) (hallowed : ∀ m, allowed m → allowed' m) :
    Reachable allowed' net := by
  induction h with
  | configured hs hconf => exact .configured hs hconf
  | moved _ hm hm' ih => exact .moved ih hm (hallowed _ hm')

/-- **Every `Reachable` network is `WellFormed`.** -/
theorem wellFormed_of_reachable {allowed : Move α → Prop} {net : Network α}
    (h : Reachable allowed net) : net.WellFormed := by
  induction h with
  | configured hs hconf => exact wellFormed_of_pristine (pristine_of_configure hs hconf)
  | moved _ hm _ ih => exact wellFormed_after ih hm

/-- **A `Reachable` network is `Orderly` as long as nobody `Enters` a node.** -/
theorem orderly_of_reachable {net : Network α} (h : Reachable (fun m => ¬m.Enters) net) :
    net.Orderly := by
  induction h with
  | configured hs hconf => exact orderly_of_pristine (pristine_of_configure hs hconf)
  | moved hnet hm halone ih => exact orderly_after (wellFormed_of_reachable hnet) ih hm halone

end

/-! ### Three nodes -/

/-- Three nodes, of which the first is grounded. -/
def Network.grounded : Network Rat where
  nodes := #[{ Node.zero 1 with isLocked := true }, Node.zero 1, Node.zero 1]
  elements := #[]
  resolving := []

/-- Configuring a study with three nodes and grounding one of them hands over `grounded`. -/
theorem reachable_grounded : Reachable (fun m => ¬m.Enters) grounded := by
  have hnodes : (Study.new (α := Rat) none).addNodes 3 1 =
      .ok ((0, 3), ⟨none, some ⟨Array.replicate 3 (Node.zero 1), #[], []⟩⟩) := rfl
  have hground : (⟨none, some ⟨Array.replicate 3 (Node.zero 1), #[], []⟩⟩ : Study Rat).groundNode 0
      = .ok ⟨none, some grounded⟩ := rfl
  exact .configured (.groundNode (.addNodes (.new none) hnodes) hground) rfl

/-- Three nodes, none of which is locked. -/
def Network.floating : Network Rat where
  nodes := #[Node.zero 1, Node.zero 1, Node.zero 1]
  elements := #[]
  resolving := []

/-- Configuring a study with three nodes hands over `floating`. -/
theorem reachable_floating : Reachable (fun m => ¬m.Enters) floating := by
  have hnodes : (Study.new (α := Rat) none).addNodes 3 1 = .ok ((0, 3), ⟨none, some floating⟩) :=
    rfl
  exact .configured (.addNodes (.new none) hnodes) rfl

/-- The grounded node drives the next one, from where two conductors lead back to it by way of
the last one. -/
def Network.divider : Network Rat :=
  [Move.addElement (.kind .potentialDrive) [] none 0 1 (.number 10),
    .addElement (.kind .conductive) [] none 1 2 (.number 1),
    .addElement (.kind .conductive) [] none 2 0 (.number 1)].foldl Move.after grounded

/-- Adding its three elements to `grounded` makes `divider`. -/
theorem reachable_divider : Reachable (fun m => ¬m.Enters) divider := by
  refine reachable_grounded.foldl fun m hm => ?_
  have hregular : Catalogue.Regular ([] : Catalogue Rat) := by simp [Catalogue.Regular]
  rcases List.mem_cons.mp hm with rfl | hm
  · exact ⟨⟨trivial, hregular⟩, id⟩
  rcases List.mem_cons.mp hm with rfl | hm
  · exact ⟨⟨trivial, hregular⟩, id⟩
  · obtain rfl := List.mem_singleton.mp hm
    exact ⟨⟨trivial, hregular⟩, id⟩

end FluxBalance
