import FluxBalance.Network.Basic
import FluxBalance.Proofs.DenseMatrix.Entries

/-!
# What stays when potentials change

The `frame` of a node is everything but the entries of its potential: its width, its lock, its
metadata, its elements and who is inside; the frame of a network is the same with the elements and
the marks. Solving, settling and evaluating a network write to potentials alone, so they keep the
frame, and whatever a frame determines can be carried from one moment to another.

For each operation of a node the module says when it succeeds and which node it makes.

## Main definitions and results

* `frame`: a node or a network with zeros for its potentials;
* `potentialAt`: the potential of a node in one component;
* `frame_eq_iff`: what it means to have one frame.
-/

namespace FluxBalance

open FluxBalance.Computation

variable {α : Type}

namespace Node

/-! ### When operations of a node succeed -/

theorem read_eq_ok_iff {n : Node α} {p : DenseMatrix α} :
    n.read = .ok p ↔ n.access ≠ .exclusive ∧ p = n.potential := by
  obtain ⟨_, _, _, _, access⟩ := n
  cases access <;> simp [read, inside, enter, Access.enter, Access.enterShared, bind, Except.bind,
    eq_comm]

/-- A change succeeds exactly if nobody is inside and the step succeeds. -/
theorem change_eq_ok_iff {n n' : Node α} {step : Node α → Except (Error α) (Node α)} :
    n.change step = .ok n' ↔ n.access = .free ∧
      ∃ m, step { n with access := .exclusive } = .ok m ∧ n' = { m with access := .free } := by
  unfold change inside enter
  rw [except_bind_eq_ok]
  constructor
  · rintro ⟨m, hm, ⟨⟩⟩
    cases h : n.access.enter .exclusive with
    | error c => simp [h, bind, Except.bind] at hm
    | ok a =>
      have hfree : n.access = .free :=
        Access.enterExclusive_isOk_iff.mp (by rw [show n.access.enterExclusive = .ok a from h]; rfl)
      rw [hfree] at h hm
      cases h
      exact ⟨hfree, m, hm, rfl⟩
  · rintro ⟨hfree, m, hm, rfl⟩
    refine ⟨m, ?_, rfl⟩
    rw [hfree]
    exact hm

/-- Whoever keeps a writer out makes a change fail, whatever is to be changed. -/
theorem change_eq_error {n : Node α} {step : Node α → Except (Error α) (Node α)}
    {conflict : BorrowConflict} (h : n.access.enterExclusive = .error conflict) :
    n.change step = .error (.borrow conflict) := by
  have henter : n.enter .exclusive = .error (.borrow conflict) := by
    unfold enter
    rw [show n.access.enter .exclusive = .error conflict from h]
  unfold change inside
  rw [henter]
  rfl

/-- A node that is given a column of its own `shape`. -/
theorem setPotential_eq_ok_iff {n n' : Node α} {value : DenseMatrix α} :
    n.setPotential value = .ok n' ↔ n.access = .free ∧ value.shape = n.potential.shape ∧
      n' = { n with potential := value } := by
  unfold setPotential
  rw [change_eq_ok_iff]
  refine and_congr_right fun hfree => ?_
  by_cases h : value.shape = n.potential.shape <;> simp [h, ← hfree]

/-- A component is written if the node is free and has this component. -/
theorem setComponent_eq_ok_iff [Zero α] {n n' : Node α} {component : Int} {value : α} :
    n.setComponent component value = .ok n' ↔ n.access = .free ∧
      ∃ p, n.potential.set component 0 value = .ok p ∧ n' = { n with potential := p } := by
  unfold setComponent
  rw [change_eq_ok_iff]
  refine and_congr_right fun hfree => ?_
  cases n.potential.set component 0 value <;> simp [← hfree]

theorem lock_eq_ok_iff {n n' : Node α} :
    n.lock = .ok n' ↔ n.access = .free ∧ n' = { n with isLocked := true } := by
  unfold lock
  rw [change_eq_ok_iff]
  refine and_congr_right fun hfree => ?_
  simp [← hfree]

theorem ground_eq_ok_iff [Zero α] {n n' : Node α} :
    n.ground = .ok n' ↔ n.access = .free ∧
      n' = { n with potential := .zeros n.components 1, isLocked := true } := by
  unfold ground
  rw [change_eq_ok_iff]
  refine and_congr_right fun hfree => ?_
  simp [← hfree, components]

/-! ### The frame of a node -/

section

variable [Zero α]

/-- The node with zeros for its potential. -/
def frame (n : Node α) : Node α :=
  { n with potential := .zeros n.potential.rows n.potential.cols }

/-- Nodes have one `frame` if they differ in the numbers of their potentials only. -/
theorem frame_eq_iff {n m : Node α} :
    n.frame = m.frame ↔ n.potential.shape = m.potential.shape ∧ n.isLocked = m.isLocked ∧
      n.metadata = m.metadata ∧ n.elements = m.elements ∧ n.access = m.access := by
  have hzeros {r c r' c' : Nat} :
      (DenseMatrix.zeros r c : DenseMatrix α) = .zeros r' c' ↔ (r, c) = (r', c') := by
    constructor
    · intro h
      exact congrArg DenseMatrix.shape h
    · rintro ⟨⟩
      rfl
  simp only [frame, Node.mk.injEq, hzeros, DenseMatrix.shape]

/-- Another potential of the same `shape` keeps the `frame`. -/
theorem frame_set_potential {n : Node α} {p : DenseMatrix α} (h : p.shape = n.potential.shape) :
    ({ n with potential := p } : Node α).frame = n.frame :=
  frame_eq_iff.mpr ⟨h, rfl, rfl, rfl, rfl⟩

/-- A node is determined by its `frame` and its potential. -/
theorem eq_of_frame_eq {n m : Node α} (h : n.frame = m.frame)
    (hpotential : n.potential = m.potential) : n = m := by
  obtain ⟨-, hlocked, hmetadata, helements, haccess⟩ := frame_eq_iff.mp h
  cases n
  cases m
  simp only [Node.mk.injEq]
  exact ⟨hpotential, hlocked, hmetadata, helements, haccess⟩

end

end Node

/-! ### The frame of a network -/

namespace Network

/-- A node is found at the positions that there are, none of which is negative. -/
theorem node_eq_ok_iff {net : Network α} {index : Int} {n : Node α} :
    net.node index = .ok n ↔ ∃ i : Nat, index = i ∧ net.nodes[i]? = some n := by
  unfold node
  split
  · simp only [reduceCtorEq, false_iff]
    rintro ⟨i, rfl, -⟩
    omega
  · rename_i hneg
    constructor
    · intro h
      refine ⟨index.toNat, by omega, ?_⟩
      cases hn : net.nodes[index.toNat]? <;> simp_all
    · rintro ⟨i, rfl, hn⟩
      simp [hn]

theorem node_natCast_eq_ok_iff {net : Network α} {i : Nat} {n : Node α} :
    net.node i = .ok n ↔ net.nodes[i]? = some n := by
  rw [node_eq_ok_iff]
  constructor
  · rintro ⟨j, hj, hn⟩
    obtain rfl : i = j := by omega
    exact hn
  · intro h
    exact ⟨i, rfl, h⟩

theorem getElem?_nodes_setNode {net : Network α} {i j : Nat} {n : Node α}
    (hi : i < net.nodes.size) :
    (net.setNode i n).nodes[j]? = if i = j then some n else net.nodes[j]? := by
  unfold setNode
  rw [Array.getElem?_setIfInBounds]
  by_cases h : i = j
  · subst h
    simp [hi]
  · simp [h]

/-- A step on a node, `changed`, succeeds if the node is there and the step succeeds on it. -/
theorem changed_eq_ok_iff {net net' : Network α} {index : Int}
    {step : Node α → Except (Error α) (Node α)} :
    net.changed index step = .ok net' ↔ ∃ (i : Nat) (n n' : Node α), index = i ∧
      net.nodes[i]? = some n ∧ step n = .ok n' ∧ net' = net.setNode i n' := by
  unfold changed
  simp only [except_bind_eq_ok, node_eq_ok_iff]
  constructor
  · rintro ⟨n, ⟨i, rfl, hn⟩, n', hn', ⟨⟩⟩
    exact ⟨i, n, n', rfl, hn, hn', rfl⟩
  · rintro ⟨i, n, n', rfl, hn, hn', rfl⟩
    exact ⟨n, ⟨i, rfl, hn⟩, n', hn', rfl⟩

theorem changeNode_eq_ok_iff {net net' : Network α} {index : Int}
    {step : Node α → Except (Error α) (Node α)} :
    changeNode index step net = .ok () net' ↔ ∃ (i : Nat) (n n' : Node α), index = i ∧
      net.nodes[i]? = some n ∧ step n = .ok n' ∧ net' = net.setNode i n' := by
  rw [← changed_eq_ok_iff]
  unfold changeNode
  cases net.changed index step <;> simp

/-- Looking at the network succeeds as the function does. -/
theorem look_eq_ok_iff {β : Type} {g : Network α → Except (Error α) β} {net net' : Network α}
    {b : β} : NetworkAction.look g net = .ok b net' ↔ g net = .ok b ∧ net = net' := by
  unfold NetworkAction.look
  cases g net <;> simp

/-- Looking at the network fails as the function does. -/
theorem look_eq_error_iff {β : Type} {g : Network α → Except (Error α) β} {net net' : Network α}
    {e : Error α} : NetworkAction.look g net = .error e net' ↔ g net = .error e ∧ net = net' := by
  unfold NetworkAction.look
  cases g net <;> simp

/-- A computation that only looks first can fail at the look or later. -/
theorem look_bind_eq_error {β γ : Type} {g : Network α → Except (Error α) β}
    {f : β → NetworkAction α γ} {net net' : Network α} {e : Error α}
    (h : (NetworkAction.look g >>= f) net = .error e net') :
    net' = net ∨ ∃ b, g net = .ok b ∧ f b net = .error e net' := by
  rcases bind_eq_error.mp h with h | ⟨b, net₁, hlook, h⟩
  · exact .inl (look_eq_error_iff.mp h).2.symm
  · obtain ⟨hb, rfl⟩ := look_eq_ok_iff.mp hlook
    exact .inr ⟨b, hb, h⟩

/-- A change of one node that fails changes nothing. -/
theorem changeNode_eq_error {net net' : Network α} {index : Int}
    {step : Node α → Except (Error α) (Node α)} {e : Error α}
    (h : changeNode index step net = .error e net') : net' = net := by
  unfold changeNode at h
  cases hc : net.changed index step <;> simp_all

/-- What all outcomes of a change of one node have, the change of one node has. -/
theorem keeps_changeNode {P : Network α → Prop} {index : Int}
    {step : Node α → Except (Error α) (Node α)}
    (h : ∀ (net : Network α) (i : Nat) (n n' : Node α), P net → index = i →
      net.nodes[i]? = some n → step n = .ok n' → P (net.setNode i n')) :
    Keeps P (changeNode index step) := by
  intro net hnet
  cases hr : changeNode index step net with
  | ok u net' =>
    obtain ⟨i, n, n', hi, hn, hn', rfl⟩ := changeNode_eq_ok_iff.mp hr
    exact h net i n n' hnet hi hn hn'
  | error e net' => exact changeNode_eq_error hr ▸ hnet

theorem leaves_look {β : Type} (g : Network α → Except (Error α) β) :
    Leaves (NetworkAction.look g) := by
  intro net
  unfold NetworkAction.look
  cases g net <;> rfl

theorem keeps_look {β : Type} {P : Network α → Prop} (g : Network α → Except (Error α) β) :
    Keeps P (NetworkAction.look g) := (leaves_look g).keeps P

section

variable [Zero α]

/-- The network with zeros for all potentials. -/
def frame (net : Network α) : Network α := { net with nodes := net.nodes.map Node.frame }

/-- The `frame` is kept when a node is replaced by one of the same frame. -/
theorem frame_setNode {net : Network α} {i : Nat} {n n' : Node α} (hn : net.nodes[i]? = some n)
    (h : n'.frame = n.frame) : (net.setNode i n').frame = net.frame := by
  obtain ⟨hi, rfl⟩ := Array.getElem?_eq_some_iff.mp hn
  have hnodes : (net.nodes.setIfInBounds i n').map Node.frame = net.nodes.map Node.frame := by
    refine Array.ext (by simp) fun j hj _ => ?_
    rw [Array.getElem_map, Array.getElem_map]
    by_cases hij : i = j
    · subst hij
      simp [h]
    · have hjs : j < net.nodes.size := by simpa using hj
      rw [Array.getElem_setIfInBounds_ne hjs hij]
  unfold frame setNode
  simp only [hnodes]

section

variable {a b : Network α}

/-- Networks of one `frame` have the same elements. -/
theorem elements_of_frame_eq (h : a.frame = b.frame) : a.elements = b.elements := by
  have helements : a.frame.elements = b.frame.elements := by rw [h]
  exact helements

theorem resolving_of_frame_eq (h : a.frame = b.frame) : a.resolving = b.resolving := by
  have hresolving : a.frame.resolving = b.frame.resolving := by rw [h]
  exact hresolving

theorem size_of_frame_eq (h : a.frame = b.frame) : a.nodes.size = b.nodes.size := by
  simpa [frame] using congrArg (fun net => net.nodes.size) h

/-- Networks of one `frame` have the same `drivers`. -/
theorem drivers_of_frame_eq (h : a.frame = b.frame) : a.drivers = b.drivers := by
  rw [drivers, drivers, elements_of_frame_eq h]

/-- Networks of one `frame` have nodes of one frame at each position. -/
theorem getElem?_of_frame_eq (h : a.frame = b.frame) {i : Nat} {n : Node α}
    (hn : a.nodes[i]? = some n) : ∃ m, b.nodes[i]? = some m ∧ n.frame = m.frame := by
  have hnodes : (a.nodes.map Node.frame)[i]? = (b.nodes.map Node.frame)[i]? := by
    rw [show a.nodes.map Node.frame = b.nodes.map Node.frame from congrArg Network.nodes h]
  rw [Array.getElem?_map, Array.getElem?_map, hn] at hnodes
  obtain ⟨m, hm, hframe⟩ := Option.map_eq_some_iff.mp hnodes.symm
  exact ⟨m, hm, hframe.symm⟩

/-- A network is determined by its `frame` and its potentials. -/
theorem eq_of_frame_eq (h : a.frame = b.frame)
    (hp : ∀ i : Nat, a.nodes[i]?.map Node.potential = b.nodes[i]?.map Node.potential) : a = b := by
  obtain ⟨nodes, elements, resolving⟩ := a
  obtain ⟨nodes', elements', resolving'⟩ := b
  obtain rfl : elements = elements' := elements_of_frame_eq h
  obtain rfl : resolving = resolving' := resolving_of_frame_eq h
  congr 1
  refine Array.ext (size_of_frame_eq h) fun i hi hi' => ?_
  obtain ⟨m, hm, hframe⟩ := getElem?_of_frame_eq h (Array.getElem?_eq_getElem hi)
  have hpi := hp i
  rw [Array.getElem?_eq_getElem hi'] at hm
  cases hm
  rw [Array.getElem?_eq_getElem hi, Array.getElem?_eq_getElem hi'] at hpi
  exact Node.eq_of_frame_eq hframe (Option.some.inj hpi)

end

/-! ### Potentials -/

/-- The potential of a node in one component; zero where there is none. -/
def potentialAt (net : Network α) (i c : Nat) : α :=
  match net.nodes[i]? with
  | some n => n.potential.entry c 0
  | none => 0

theorem potentialAt_eq {net : Network α} {i : Nat} {n : Node α} (hn : net.nodes[i]? = some n)
    (c : Nat) : net.potentialAt i c = n.potential.entry c 0 := by
  rw [potentialAt, hn]

/-- The potential of the node that `setNode` has put in. -/
theorem potentialAt_setNode_self {net : Network α} {i : Nat} {n : Node α}
    (hi : i < net.nodes.size) (c : Nat) :
    (net.setNode i n).potentialAt i c = n.potential.entry c 0 :=
  potentialAt_eq (by rw [getElem?_nodes_setNode hi, if_pos rfl]) c

theorem potentialAt_setNode_of_ne {net : Network α} {i j : Nat} {n : Node α}
    (hi : i < net.nodes.size) (hij : i ≠ j) (c : Nat) :
    (net.setNode i n).potentialAt j c = net.potentialAt j c := by
  rw [potentialAt, potentialAt, getElem?_nodes_setNode hi, if_neg hij]

end

end Network

end FluxBalance
