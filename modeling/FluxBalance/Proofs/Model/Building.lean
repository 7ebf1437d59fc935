import FluxBalance.Proofs.Library.Readings
import FluxBalance.Proofs.Model.Entries
import FluxBalance.Proofs.Study.Retaining

/-!
# Valid models can be built

The checks of a document are made so that its nodes can be created and configured: there is at least
one component, every configured node exists and its potential has the shape that it was created
with. From then on nobody is inside a node, so elements that can be made can be joined, and gains of
documents consist of numbers, so elements that cannot be made are refused in the two ways that
belong to elements. What is built has the nodes that were configured, but for those that elements
drive, and its elements join the nodes that the document names.

## Main definitions and results

* `Configures`, `exists_study`: the nodes of a `Valid` model can be created and configured;
* `Describes`, `build_of_ofJson`: what `build` makes of an accepted document, and how it fails.
-/

namespace FluxBalance

open FluxBalance.Computation Network

/-! ### Nodes -/

/-- The node that is configured, before elements are added. -/
def NodeConfiguration.toNode (c : NodeConfiguration) : Node Float where
  potential := .column c.potential
  isLocked := c.isLocked
  metadata := c.metadata
  elements := []
  access := .free

/-- A node that was created with the right number of components can be configured. -/
private theorem NodeConfiguration.configure_zero (c : NodeConfiguration) :
    (Node.zero c.potential.length).configure (some (.column c.potential)) (some c.isLocked)
      c.metadata = .ok c.toNode := by
  have hset : (Node.zero c.potential.length : Node Float).setPotential (.column c.potential) =
      .ok { Node.zero c.potential.length with potential := .column c.potential } :=
    Node.setPotential_eq_ok_iff.mpr ⟨rfl, rfl, rfl⟩
  refine except_bind_eq_ok.mpr ⟨_, hset, Node.change_eq_ok_iff.mpr ⟨rfl, _, rfl, ?_⟩⟩
  simp [toNode, Node.zero]

/-- At least one component can be had by any number of nodes. -/
private theorem Study.exists_addNodes {s : Study Float} {net : Network Float}
    (hs : s.network? = some net) (count : Nat) {components : Nat} (hcomponents : 0 < components) :
    ∃ positions s', s.addNodes count components = .ok (positions, s') ∧ s'.network? =
      some { net with nodes := net.nodes ++ Array.replicate count (.zero components) } := by
  have hlive : s.live = .ok net := Study.live_eq_ok_iff.mpr hs
  have hnew : (Node.new components : Except (Error Float) (Node Float)) =
      .ok (.zero components) := by
    rw [Node.new, if_neg (by omega), Int.toNat_natCast]
  unfold addNodes
  rw [hlive]
  rcases Nat.eq_zero_or_pos count with rfl | hcount
  · exact ⟨_, s, rfl, by simp [hs]⟩
  · generalize hnodes : net.nodes ++ Array.replicate count (Node.zero components) = nodes
    refine ⟨(net.nodes.size, nodes.size), { s with network? := some { net with nodes } }, ?_, rfl⟩
    dsimp only [bind, Except.bind]
    rw [if_neg (by omega), hnew, Int.toNat_natCast]
    dsimp only
    rw [hnodes]
    rfl

namespace Model

/-- Configuring nodes that exist and have not been configured yet, each of them once. -/
private theorem exists_configureAll : ∀ {cs : List (Nat × NodeConfiguration)} {s : Study Float}
    {net : Network Float}, s.network? = some net → (cs.map (·.1)).Nodup →
    (∀ p ∈ cs, net.nodes[p.1]? = some (.zero p.2.potential.length)) →
    ∃ s' net', configureAll s cs = .ok s' ∧ s'.network? = some net' ∧
      net'.elements = net.elements ∧ net'.nodes.size = net.nodes.size ∧
      (∀ p ∈ cs, net'.nodes[p.1]? = some p.2.toNode) ∧
      ∀ i ∉ cs.map (·.1), net'.nodes[i]? = net.nodes[i]?
  | [], s, net, hs, _, _ => ⟨s, net, rfl, hs, rfl, rfl, by simp, fun _ _ => rfl⟩
  | (i, c) :: cs, s, net, hs, hnodup, hzero => by
    obtain ⟨hi, hzero⟩ := List.forall_mem_cons.mp hzero
    rw [List.map_cons, List.nodup_cons] at hnodup
    have hsize : i < net.nodes.size := (Array.getElem?_eq_some_iff.mp hi).1
    have hstep : s.configureNode i (some (.column c.potential)) (some c.isLocked) c.metadata =
        .ok { s with network? := some (net.setNode i c.toNode) } :=
      except_bind_eq_ok.mpr ⟨net, Study.live_eq_ok_iff.mpr hs, except_bind_eq_ok.mpr
        ⟨_, changed_eq_ok_iff.mpr ⟨i, _, _, rfl, hi, c.configure_zero, rfl⟩, rfl⟩⟩
    have hother {k : Nat} (hk : i ≠ k) : (net.setNode i c.toNode).nodes[k]? = net.nodes[k]? := by
      rw [getElem?_nodes_setNode hsize, if_neg hk]
    -- The other entries are about other nodes, which are still as they were.
    have hrest : ∀ p ∈ cs, (net.setNode i c.toNode).nodes[p.1]? =
        some (.zero p.2.potential.length) := by
      intro p hp
      have hne : i ≠ p.1 := by
        rintro rfl
        exact hnodup.1 (List.mem_map.mpr ⟨p, hp, rfl⟩)
      rw [hother hne]
      exact hzero p hp
    have hs₁ : ({ s with network? := some (net.setNode i c.toNode) } : Study Float).network? =
        some (net.setNode i c.toNode) := rfl
    obtain ⟨s', net', hok, hs', helements, hsize', hnodes, hothers⟩ :=
      exists_configureAll hs₁ hnodup.2 hrest
    refine ⟨s', net', ?_, hs', helements, hsize'.trans (size_nodes_setNode _ _ _), ?_, ?_⟩
    · rw [configureAll, hstep]
      exact hok
    · refine List.forall_mem_cons.mpr ⟨?_, hnodes⟩
      rw [hothers i hnodup.1, getElem?_nodes_setNode hsize, if_pos rfl]
    · intro k hk
      rw [List.map_cons, List.mem_cons, not_or] at hk
      rw [hothers k hk.2, hother (Ne.symm hk.1)]

/-- A network with the nodes of a model and without elements. -/
structure Configures (m : Model) (net : Network Float) : Prop where
  elements : net.elements = #[]
  size : net.nodes.size = m.nodes
  configured : ∀ p ∈ m.configuration, net.nodes[p.1]? = some p.2.toNode
  others : ∀ i < m.nodes, i ∉ m.configuration.map (·.1) →
    net.nodes[i]? = some (.zero m.components)

/-- The nodes of a `Valid` model have a component. -/
private theorem Valid.components_pos {m : Model} (h : m.Valid) : 0 < m.components := by
  unfold components
  split
  · rename_i i c rest hfirst
    have hne : c.potential ≠ [] := h.potential_ne_nil (i, c) (by rw [hfirst]; exact .head _)
    exact List.length_pos_iff.mpr hne
  · exact Nat.one_pos

/-- **The nodes of a `Valid` model** can be created and configured. -/
theorem exists_study {m : Model} (h : m.Valid) :
    ∃ s net, m.study = .ok s ∧ s.network? = some net ∧ m.Configures net := by
  have hperm : m.configured.Perm m.configuration := List.mergeSort_perm _ _
  have hempty : (Study.new (some m.modelType) : Study Float).network? = some .empty := rfl
  obtain ⟨positions, s, hadd, hs⟩ := Study.exists_addNodes hempty m.nodes h.components_pos
  have hnode {i : Nat} (hi : i < m.nodes) :
      (Network.empty.nodes ++ Array.replicate m.nodes (Node.zero m.components : Node Float))[i]? =
        some (.zero m.components) := by
    simp [Network.empty, hi]
  have hzero : ∀ p ∈ m.configured,
      (Network.empty.nodes ++ Array.replicate m.nodes (Node.zero m.components : Node Float))[p.1]? =
        some (.zero p.2.potential.length) := by
    intro p hp
    have hp := hperm.mem_iff.mp hp
    rw [hnode (h.lt_nodes p hp), h.length_potential p hp]
  obtain ⟨s', net', hok, hs', helements, hsize, hnodes, hothers⟩ :=
    exists_configureAll hs ((hperm.map _).nodup_iff.mpr h.nodup) hzero
  refine ⟨s', net', except_bind_eq_ok.mpr ⟨_, hadd, hok⟩, hs', helements, ?_, ?_, ?_⟩
  · simpa [Network.empty] using hsize
  · exact fun p hp => hnodes p (hperm.mem_iff.mpr hp)
  · intro i hi hnot
    rw [hothers i fun hmem => hnot ((hperm.map _).mem_iff.mp hmem)]
    exact hnode hi

end Model

/-! ### Elements -/

/-- The element joins the nodes that the description names. -/
def ElementDescription.Joins (d : ElementDescription) (e : Element Float) : Prop :=
  (e.input : Int) = d.input ∧ (e.output : Int) = d.output

/-- Gains of documents consist of numbers. -/
private theorem ElementDescription.numeric_toGain (d : ElementDescription) : d.toGain.Numeric := by
  refine .list (List.forall_mem_map.mpr fun g _ => ?_)
  cases g with
  | number x => exact .number x
  | row xs => exact .list (List.forall_mem_map.mpr fun x _ => .number x)

namespace Model

variable (modelType : String)

/-- An element of a document is refused as elements are, or it is joined to the nodes that are
named. -/
theorem add_cases {net : Network Float} (hwf : net.WellFormed) (hord : net.Orderly)
    (d : ElementDescription) :
    (∃ cause, cause.OfElement ∧ d.toRequest.add .standard (some modelType) net = .error cause net) ∨
    ∃ e net', d.toRequest.add .standard (some modelType) net = .ok net.elements.size net' ∧
      d.Joins e ∧ Extends e net net' ∧ net'.WellFormed ∧ net'.Orderly := by
  have hsound := ElementSpec.sound_make_named (α := Float) d.elementType modelType
  cases hmake : (ElementSpec.named d.elementType).make .standard (some modelType) net d.input
    d.output d.toGain with
  | error cause =>
    refine .inl ⟨cause, hsound.errs net d.input d.output d.numeric_toGain cause hmake, ?_⟩
    exact bind_eq_error.mpr (.inl (look_eq_error_iff.mpr ⟨hmake, rfl⟩))
  | ok e =>
    have hregular : (ElementSpec.named d.elementType : ElementSpec Float).Regular := trivial
    have hmade := ElementSpec.made_of_make hregular Catalogue.regular_standard hmake
    obtain ⟨net', hjoin, hext⟩ := exists_addElement hwf hord.free hmade
    have hfinal : finalState (addElement e net) = net' := by rw [hjoin]; rfl
    refine .inr ⟨e, net', ?_, hsound.ends hmake, hext, hfinal ▸ wellFormed_addElement hwf hmade,
      hfinal ▸ orderly_addElement hwf hord hmade⟩
    exact bind_eq_ok.mpr ⟨e, net, look_eq_ok_iff.mpr ⟨hmake, rfl⟩, hjoin⟩

/-- The elements of a document are refused as elements are, or all of them are joined to the nodes
that are named. -/
theorem addAll_cases : ∀ (ds : List ElementDescription) {net : Network Float}, net.WellFormed →
    net.Orderly →
    (∃ cause left, cause.OfElement ∧ addAll modelType ds net = .error cause left) ∨
    ∃ net' es, addAll modelType ds net = .ok () net' ∧ (∀ i, net'.width? i = net.width? i) ∧
      net'.elements.toList = net.elements.toList ++ es ∧
      List.Forall₂ ElementDescription.Joins ds es
  | [], net, _, _ => .inr ⟨net, [], rfl, fun _ => rfl, by simp, .nil⟩
  | d :: ds, net, hwf, hord => by
    rcases add_cases modelType hwf hord d with
      ⟨cause, hcause, hadd⟩ | ⟨e, net₁, hadd, hjoins, hext, hwf₁, hord₁⟩
    · exact .inl ⟨cause, net, hcause, bind_eq_error.mpr (.inl hadd)⟩
    · rcases addAll_cases ds hwf₁ hord₁ with
        ⟨cause, left, hcause, hall⟩ | ⟨net', es, hall, hwidth, helements, hes⟩
      · exact .inl ⟨cause, left, hcause, bind_eq_error.mpr (.inr ⟨_, net₁, hadd, hall⟩)⟩
      · refine .inr ⟨net', e :: es, bind_eq_ok.mpr ⟨_, net₁, hadd, hall⟩,
          fun i => (hwidth i).trans (hext.width i), ?_, .cons hjoins hes⟩
        rw [helements, hext.elements, Array.toList_push, List.append_assoc, List.singleton_append]

/-! ### The whole network -/

/-- A network that has been configured is `Pristine`. -/
private theorem Configures.pristine {m : Model} {net : Network Float} (h : m.Configures net) :
    net.Pristine := by
  refine ⟨h.elements, fun {i n} hn => ?_⟩
  have hi : i < m.nodes := h.size ▸ (Array.getElem?_eq_some_iff.mp hn).1
  by_cases hmem : i ∈ m.configuration.map (·.1)
  · obtain ⟨p, hp, rfl⟩ := List.mem_map.mp hmem
    rw [h.configured p hp] at hn
    cases hn
    exact ⟨rfl, rfl, rfl⟩
  · rw [h.others i hi hmem] at hn
    cases hn
    exact ⟨rfl, rfl, rfl⟩

/-- Every node of a `Valid` model has the same number of `components`. -/
theorem Configures.components {m : Model} {net : Network Float} (h : m.Configures net)
    (hm : m.Valid) {i : Nat} {n : Node Float} (hn : net.nodes[i]? = some n) :
    n.components = m.components := by
  have hi : i < m.nodes := h.size ▸ (Array.getElem?_eq_some_iff.mp hn).1
  by_cases hmem : i ∈ m.configuration.map (·.1)
  · obtain ⟨p, hp, rfl⟩ := List.mem_map.mp hmem
    rw [h.configured p hp] at hn
    cases hn
    exact hm.length_potential p hp
  · rw [h.others i hi hmem] at hn
    cases hn
    rfl

/-- The network of a model: its nodes are as they were configured unless elements drive them, and
its elements join the nodes that the model names. -/
structure Describes (m : Model) (net : Network Float) : Prop where
  size : net.nodes.size = m.nodes
  components : ∀ {i : Nat} {n : Node Float}, net.nodes[i]? = some n → n.components = m.components
  configured : ∀ {i : Nat} {c : NodeConfiguration}, (i, c) ∈ m.configuration →
    ∃ n, net.nodes[i]? = some n ∧ n.metadata = c.metadata ∧
      ((∀ e ∈ net.drivers, e.driven ≠ i) →
        n.potential = .column c.potential ∧ n.isLocked = c.isLocked)
  others : ∀ {i : Nat} {n : Node Float}, net.nodes[i]? = some n →
    i ∉ m.configuration.map (·.1) → n.metadata = none ∧
      ((∀ e ∈ net.drivers, e.driven ≠ i) →
        n.potential = .zeros m.components 1 ∧ n.isLocked = false)
  elements : List.Forall₂ ElementDescription.Joins m.elements net.elements.toList

/-- Adding the elements of a model to its nodes makes its network. -/
private theorem Configures.describes {m : Model} {net net' : Network Float} (h : m.Configures net)
    (hm : m.Valid) (hadd : addAll m.modelType m.elements net = .ok () net') : m.Describes net' := by
  have hretains : net.Retains net' := by
    refine retains_addAll Catalogue.regular_standard (List.forall_mem_map.mpr fun _ _ => ?_)
      (Model.addAll_eq m.modelType m.elements ▸ hadd)
    exact ⟨trivial, trivial⟩
  rcases addAll_cases m.modelType m.elements (wellFormed_of_pristine h.pristine)
    (orderly_of_pristine h.pristine) with ⟨_, _, -, hfail⟩ | ⟨_, es, hok, hwidth, helements, hes⟩
  · rw [hadd] at hfail
    cases hfail
  rw [hadd] at hok
  cases hok
  refine ⟨hretains.size.trans h.size, fun {i n} hn => ?_, fun {i c} hc => ?_,
    fun {i n} hn hnot => ?_, ?_⟩
  · obtain ⟨n₀, hn₀, hcomponents⟩ := width?_eq_some.mp
      ((hwidth i).symm.trans (width?_eq_some.mpr ⟨n, hn, rfl⟩))
    exact hcomponents.symm.trans (h.components hm hn₀)
  · exact hretains.node (h.configured (i, c) hc)
  · have hi : i < m.nodes := h.size ▸ hretains.size ▸ (Array.getElem?_eq_some_iff.mp hn).1
    obtain ⟨n', hn', hnode⟩ := hretains.node (h.others i hi hnot)
    obtain rfl : n = n' := by simpa [hn] using hn'
    exact hnode
  · rw [helements, h.elements]
    simpa using hes

/-- A `Valid` model is built by adding its elements to its nodes. -/
private theorem exists_build_eq {m : Model} (hm : m.Valid) :
    ∃ s net handed, m.study = .ok s ∧ s.configure = .ok (net, handed) ∧ m.Configures net ∧
      m.build = match addAll m.modelType m.elements net with
        | .ok _ net => .ok net
        | .error e _ => .error e := by
  obtain ⟨s, net, hstudy, hs, hnodes⟩ := exists_study hm
  have hconfigure : s.configure = .ok (net, { s with network? := none }) :=
    except_bind_eq_ok.mpr ⟨net, Study.live_eq_ok_iff.mpr hs, rfl⟩
  refine ⟨s, net, _, hstudy, hconfigure, hnodes, ?_⟩
  unfold build
  rw [hstudy]
  dsimp only [bind, Except.bind]
  rw [hconfigure]
  rfl

/-- What is built is the network of the model. -/
theorem describes_of_build {m : Model} (hm : m.Valid) {net : Network Float}
    (h : m.build = .ok net) : m.Describes net := by
  obtain ⟨s, net₀, handed, -, -, hnodes, hbuild⟩ := exists_build_eq hm
  rw [hbuild] at h
  split at h
  · rename_i u left hadd
    cases h
    exact hnodes.describes hm hadd
  · cases h

/-- **A document that is accepted can be built, but for its elements.** Its nodes can be created and
configured. If an element cannot be added, an end is missing or the element cannot be made. What is
built has the nodes and the elements that the document `Describes`, and all nodes have as many
`components` as those that are configured, or one if none is. -/
theorem build_of_ofJson {j : Json} {m : Model} (h : ofJson j = .ok m) :
    (∃ s net handed, m.study = .ok s ∧ s.configure = .ok (net, handed) ∧
      ∀ cause, m.build = .error cause →
        cause.OfElement ∧ ∃ left, addAll m.modelType m.elements net = .error cause left) ∧
    (∀ p ∈ m.configuration, p.2.potential.length = m.components) ∧
    (m.configuration = [] → m.components = 1) ∧
    ∀ net, m.build = .ok net → m.Describes net := by
  have hm := valid_of_ofJson h
  obtain ⟨s, net, handed, hstudy, hconfigure, hnodes, hbuild⟩ := exists_build_eq hm
  refine ⟨⟨s, net, handed, hstudy, hconfigure, fun cause hcause => ?_⟩, hm.length_potential,
    fun hnone => ?_, fun _ => describes_of_build hm⟩
  · rcases addAll_cases m.modelType m.elements (wellFormed_of_pristine hnodes.pristine)
      (orderly_of_pristine hnodes.pristine) with ⟨cause', left, hof, hadd⟩ | ⟨_, _, hadd, -⟩
    · rw [hbuild, hadd] at hcause
      cases hcause
      exact ⟨hof, left, hadd⟩
    · rw [hbuild, hadd] at hcause
      cases hcause
  · rw [components, hnone]

/-- A document whose only element is a drive: it is accepted, so what has been said of accepted
documents holds of its model. -/
theorem build_twofold :
    ofJson twofold = .ok twofoldModel ∧
    (∃ s net handed, twofoldModel.study = .ok s ∧ s.configure = .ok (net, handed) ∧
      ∀ cause, twofoldModel.build = .error cause → cause.OfElement ∧
        ∃ left, addAll "dc_circuit" twofoldModel.elements net = .error cause left) ∧
    ∀ net, twofoldModel.build = .ok net → twofoldModel.Describes net :=
  have h := build_of_ofJson ofJson_twofold
  ⟨ofJson_twofold, h.1, h.2.2.2⟩

end Model

end FluxBalance
