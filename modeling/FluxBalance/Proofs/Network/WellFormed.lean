import FluxBalance.Network.Construction
import FluxBalance.Proofs.Network.Frame

/-!
# Well-formed networks

In a `WellFormed` network every potential is a column, every element joins two distinct nodes of one
width by a gain of the shape that its kind needs, and every node lists exactly the elements that
enter its balance, in order. A network is `Orderly` if besides nobody is inside a node, every driven
node is locked and no node is driven twice.

All of this is a matter of the `frame`, so it survives whatever keeps the frame.

## Main definitions and results

* `Element.Fits`: the element joins two distinct nodes of one width by a gain of the right shape;
* `WellFormed`, `Orderly`: the invariants of networks;
* `WellFormed.of_frame_eq`, `Orderly.of_frame_eq`: both are a matter of the `frame`.
-/

namespace FluxBalance

variable {α : Type}

/-- The shape of a gain between nodes of the given width. -/
def ElementKind.gainShape (kind : ElementKind) (width : Nat) : Nat × Nat :=
  match kind with
  | .conductive => (width, width)
  | _ => (width, 1)

namespace Network

/-- The width of the node at a position. -/
def width? (net : Network α) (i : Nat) : Option Nat := net.nodes[i]?.map Node.components

/-- The positions of the elements that enter the balance of a node, in ascending order. -/
def registeredAt (net : Network α) (i : Nat) : List Nat :=
  (net.elements.toList.zipIdx.filter fun p => decide (i ∈ p.1.endpoints)).map Prod.snd

end Network

/-- The element joins two distinct nodes of one width by a gain of the right shape. -/
structure Element.Fits (e : Element α) (net : Network α) (width : Nat) : Prop where
  ends_ne : e.input ≠ e.output
  input : net.width? e.input = some width
  output : net.width? e.output = some width
  gain : e.gain.shape = e.kind.gainShape width

namespace Element.Fits

variable {e : Element α} {net : Network α} {w : Nat}

/-- An element fits the width of the node that it drives. -/
theorem driven (h : e.Fits net w) : net.width? e.driven = some w := by
  unfold Element.driven
  split
  · exact h.output
  · exact h.input

theorem dominant (h : e.Fits net w) : net.width? e.dominant = some w := by
  unfold Element.dominant
  split
  · exact h.input
  · exact h.output

theorem dominant_ne_driven (h : e.Fits net w) : e.dominant ≠ e.driven := by
  unfold Element.dominant Element.driven
  split
  · exact h.ends_ne
  · exact h.ends_ne.symm

/-- The gain of a driving element is a column of the width of its nodes. -/
theorem gain_of_drives (h : e.Fits net w) (hd : e.kind.drives = true) :
    e.gain.rows = w ∧ e.gain.cols = 1 := by
  have hgain := h.gain
  cases hk : e.kind <;> simp [hk, ElementKind.drives] at hd
  rw [hk] at hgain
  exact ⟨congrArg Prod.fst hgain, congrArg Prod.snd hgain⟩

end Element.Fits

namespace Network

/-- The lists of a network agree with each other, and so do the shapes. -/
structure WellFormed (net : Network α) : Prop where
  column : ∀ {i : Nat} {n : Node α}, net.nodes[i]? = some n → n.potential.cols = 1
  fits : ∀ {k : Nat} {e : Element α}, net.elements[k]? = some e → ∃ w, e.Fits net w
  registered : ∀ {i : Nat} {n : Node α}, net.nodes[i]? = some n → n.elements = net.registeredAt i

/-- Nobody is inside a node, and driving elements lock one node each. -/
structure Orderly (net : Network α) : Prop where
  free : ∀ {i : Nat} {n : Node α}, net.nodes[i]? = some n → n.access = .free
  locked : ∀ {k : Nat} {e : Element α} {n : Node α}, net.elements[k]? = some e →
    e.kind.drives = true → net.nodes[e.driven]? = some n → n.isLocked = true
  driven_inj : ∀ {k l : Nat} {e f : Element α}, net.elements[k]? = some e →
    net.elements[l]? = some f → e.kind.drives = true → f.kind.drives = true →
    e.driven = f.driven → k = l

/-- The potential of the node is a boundary condition: the node is locked, and no element drives
it. -/
def Boundary (net : Network α) (i : Nat) : Prop :=
  ∃ n, net.nodes[i]? = some n ∧ n.isLocked = true ∧ ∀ e ∈ net.drivers, e.driven ≠ i

/-! ### Looking at a network -/

/-- The `drivers` are the elements whose kind drives. -/
theorem mem_drivers {net : Network α} {e : Element α} :
    e ∈ net.drivers ↔ (∃ k : Nat, net.elements[k]? = some e) ∧ e.kind.drives = true := by
  rw [drivers, List.mem_filter, Array.mem_toList_iff, Array.mem_iff_getElem?]

theorem width?_eq_some {net : Network α} {i w : Nat} :
    net.width? i = some w ↔ ∃ n, net.nodes[i]? = some n ∧ n.potential.rows = w :=
  Option.map_eq_some_iff

theorem lt_size_of_width? {net : Network α} {i w : Nat} (h : net.width? i = some w) :
    i < net.nodes.size := by
  obtain ⟨n, hn, -⟩ := width?_eq_some.mp h
  exact (Array.getElem?_eq_some_iff.mp hn).1

/-- No element drives an unlocked node. -/
theorem Orderly.undriven {net : Network α} (h : net.Orderly) {i : Nat} {n : Node α}
    (hn : net.nodes[i]? = some n) (hunlocked : n.isLocked = false) :
    ∀ e ∈ net.drivers, e.driven ≠ i := by
  rintro e he rfl
  obtain ⟨⟨k, hk⟩, hd⟩ := mem_drivers.mp he
  rw [h.locked hk hd hn] at hunlocked
  cases hunlocked

/-- A potential is read if the node is there and not held exclusively. -/
theorem potential_eq_ok_iff {net : Network α} {i : Nat} {p : DenseMatrix α} :
    net.potential i = .ok p ↔
      ∃ n, net.nodes[i]? = some n ∧ n.access ≠ .exclusive ∧ p = n.potential := by
  unfold potential
  simp only [except_bind_eq_ok, node_natCast_eq_ok_iff, Node.read_eq_ok_iff]

/-- Beyond the width of a node its potential is zero. -/
theorem potentialAt_outside [Zero α] {net : Network α} {i w c : Nat} (h : net.width? i = some w)
    (hc : ¬c < w) : net.potentialAt i c = 0 := by
  obtain ⟨n, hn, rfl⟩ := width?_eq_some.mp h
  rw [potentialAt_eq hn]
  exact DenseMatrix.entry_outside _ fun hin => hc hin.1

theorem fitting_eq_ok_iff {β : Type} {x : Except MatrixError β} {b : β} :
    (fitting x : Except (Error α) β) = .ok b ↔ x = .ok b := by
  cases x <;> simp [fitting]

/-! ### What a frame determines -/

section

variable [Zero α] {a b : Network α}

theorem width?_of_frame_eq (h : a.frame = b.frame) (i : Nat) : a.width? i = b.width? i := by
  unfold width?
  cases ha : a.nodes[i]? with
  | none =>
    have hb : b.nodes[i]? = none := by
      rw [Array.getElem?_eq_none_iff] at ha ⊢
      exact size_of_frame_eq h ▸ ha
    rw [hb]
  | some n =>
    obtain ⟨m, hm, hframe⟩ := getElem?_of_frame_eq h ha
    rw [hm]
    exact congrArg some (congrArg Prod.fst (Node.frame_eq_iff.mp hframe).1)

theorem Boundary.of_frame_eq {i : Nat} (ha : a.Boundary i) (h : a.frame = b.frame) :
    b.Boundary i := by
  obtain ⟨n, hn, hlocked, hdriven⟩ := ha
  obtain ⟨m, hm, hframe⟩ := getElem?_of_frame_eq h hn
  refine ⟨m, hm, (Node.frame_eq_iff.mp hframe).2.1.symm.trans hlocked, ?_⟩
  rw [← drivers_of_frame_eq h]
  exact hdriven

/-- What is registered at a node is a matter of the `frame`. -/
private theorem registeredAt_of_frame_eq (h : a.frame = b.frame) (i : Nat) :
    a.registeredAt i = b.registeredAt i := by
  rw [registeredAt, registeredAt, elements_of_frame_eq h]

/-- Whether an element fits is a matter of the `frame`. -/
theorem fits_of_frame_eq (h : a.frame = b.frame) {e : Element α} {w : Nat}
    (he : e.Fits a w) : e.Fits b w where
  ends_ne := he.ends_ne
  input := width?_of_frame_eq h _ ▸ he.input
  output := width?_of_frame_eq h _ ▸ he.output
  gain := he.gain

theorem WellFormed.of_frame_eq (ha : a.WellFormed) (h : a.frame = b.frame) : b.WellFormed where
  column {i m} hm := by
    obtain ⟨n, hn, hframe⟩ := getElem?_of_frame_eq h.symm hm
    have hshape := (Node.frame_eq_iff.mp hframe).1
    exact (congrArg Prod.snd hshape).trans (ha.column hn)
  fits {k e} he := by
    rw [← elements_of_frame_eq h] at he
    obtain ⟨w, hw⟩ := ha.fits he
    exact ⟨w, fits_of_frame_eq h hw⟩
  registered {i m} hm := by
    obtain ⟨n, hn, hframe⟩ := getElem?_of_frame_eq h.symm hm
    rw [(Node.frame_eq_iff.mp hframe).2.2.2.1, ha.registered hn, registeredAt_of_frame_eq h]

theorem Orderly.of_frame_eq (ha : a.Orderly) (h : a.frame = b.frame) : b.Orderly where
  free {i m} hm := by
    obtain ⟨n, hn, hframe⟩ := getElem?_of_frame_eq h.symm hm
    exact (Node.frame_eq_iff.mp hframe).2.2.2.2.trans (ha.free hn)
  locked {k e m} he hd hm := by
    rw [← elements_of_frame_eq h] at he
    obtain ⟨n, hn, hframe⟩ := getElem?_of_frame_eq h.symm hm
    exact (Node.frame_eq_iff.mp hframe).2.1.trans (ha.locked he hd hn)
  driven_inj {k l e f} he hf := by
    rw [← elements_of_frame_eq h] at he hf
    exact ha.driven_inj he hf

end

/-- Marks do not matter. -/
theorem WellFormed.mark {net : Network α} (h : net.WellFormed) (marks : List Nat) :
    ({ net with resolving := marks } : Network α).WellFormed where
  column hn := h.column hn
  fits he := by
    obtain ⟨w, hw⟩ := h.fits he
    exact ⟨w, hw.ends_ne, hw.input, hw.output, hw.gain⟩
  registered hn := h.registered hn

theorem WellFormed.fits_of_mem {net : Network α} (h : net.WellFormed) :
    ∀ e ∈ net.elements.toList, ∃ w, e.Fits net w := by
  intro e he
  obtain ⟨k, hk⟩ := Array.mem_iff_getElem?.mp (Array.mem_toList_iff.mp he)
  exact h.fits hk

end Network

end FluxBalance
