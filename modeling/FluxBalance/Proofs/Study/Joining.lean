import FluxBalance.Proofs.Library.Uniform

/-!
# What a new element changes

Joining an element that has been made succeeds as long as nobody is inside a node. It appends the
element and, if the element drives, locks the node that it drives and gives it the imposed
potential; other nodes stay as they are. That node was unlocked, so its potential was no boundary
condition, and it is driven from then on, so it does not become one: adding elements leaves the
boundary of a network alone.

## Main definitions and results

* `Extends`: what joining an element changes;
* `exists_addElement`: joining succeeds while nobody is inside a node;
* `Extends.boundary_iff`: it leaves the boundary alone.
-/

namespace FluxBalance

open FluxBalance.Computation

variable {α : Type}

/-- The element drives the node, so joining it locks the node. -/
def Element.locks (e : Element α) (i : Nat) : Bool := e.kind.drives && decide (e.driven = i)

namespace Network

variable {net net' : Network α} {e : Element α} {i : Nat}

/-! ### Locks -/

theorem locked_of_getElem? {n : Node α} (hn : net.nodes[i]? = some n) :
    net.locked i = n.isLocked := by
  rw [locked, hn]
  rfl

private theorem locked_register (hne : e.input ≠ e.output) (i : Nat) :
    (net.register e).locked i = net.locked i := by
  unfold locked
  rw [getElem?_register hne, Option.map_map]
  cases net.nodes[i]? with
  | none => rfl
  | some n =>
    dsimp only [Option.map_some, Function.comp, Option.getD_some]
    split <;> rfl

theorem locked_setNode {n : Node α} (hi : i < net.nodes.size) (j : Nat) :
    (net.setNode i n).locked j = if i = j then n.isLocked else net.locked j := by
  unfold locked
  rw [getElem?_nodes_setNode hi]
  split <;> rfl

theorem locked_of_frame_eq [Zero α] {a b : Network α} (h : a.frame = b.frame) (i : Nat) :
    a.locked i = b.locked i := by
  cases hn : a.nodes[i]? with
  | none =>
    have hb : b.nodes[i]? = none := by
      rw [Array.getElem?_eq_none_iff] at hn ⊢
      exact size_of_frame_eq h ▸ hn
    rw [locked, locked, hn, hb]
  | some n =>
    obtain ⟨m, hm, hframe⟩ := getElem?_of_frame_eq h hn
    rw [locked_of_getElem? hn, locked_of_getElem? hm]
    exact (Node.frame_eq_iff.mp hframe).2.1

/-- The `Boundary` consists of the locked nodes that no element drives. -/
theorem boundary_iff : net.Boundary i ↔ net.locked i = true ∧ ∀ e ∈ net.drivers, e.driven ≠ i := by
  constructor
  · rintro ⟨n, hn, hlocked, hdriven⟩
    exact ⟨(locked_of_getElem? hn).trans hlocked, hdriven⟩
  · rintro ⟨hlocked, hdriven⟩
    cases hn : net.nodes[i]? with
    | none =>
      rw [locked, hn] at hlocked
      cases hlocked
    | some n => exact ⟨n, hn, (locked_of_getElem? hn).symm.trans hlocked, hdriven⟩

/-! ### Joining -/

variable [Scalar α]

private theorem potentialAt_register (hne : e.input ≠ e.output) (i c : Nat) :
    (net.register e).potentialAt i c = net.potentialAt i c := by
  unfold potentialAt
  rw [getElem?_register hne]
  cases net.nodes[i]? with
  | none => rfl
  | some n =>
    dsimp only [Option.map_some]
    split <;> rfl

/-- What joining an element changes. -/
structure Extends (e : Element α) (net net' : Network α) : Prop where
  elements : net'.elements = net.elements.push e
  width : ∀ i, net'.width? i = net.width? i
  locked : ∀ i, net'.locked i = (net.locked i || e.locks i)
  potentialAt : ∀ {i : Nat}, e.locks i = false → ∀ c, net'.potentialAt i c = net.potentialAt i c

/-- **Joining an element that has been made succeeds** as long as nobody is inside a node. -/
theorem exists_addElement (hwf : net.WellFormed)
    (hfree : ∀ {i : Nat} {n : Node α}, net.nodes[i]? = some n → n.access = .free)
    (hmade : e.Made net) :
    ∃ net', addElement e net = .ok net.elements.size net' ∧ Extends e net net' := by
  obtain ⟨w, hfits⟩ := hmade.fits
  have hne := hfits.ends_ne
  cases hd : e.kind.drives with
  | false =>
    -- An element that does not drive is registered and nothing else.
    refine ⟨net.register e, ?_, rfl, width?_register hne, fun i => ?_,
      fun _ => potentialAt_register hne _⟩
    · unfold addElement
      dsimp only
      rw [hd]
      rfl
    · rw [locked_register hne, Element.locks, hd, Bool.false_and, Bool.or_false]
  | true =>
    -- A driving element locks its driven node, which is then derived from the dominant one.
    obtain ⟨n, hn, hlock⟩ := exists_lock_register hfree hmade hd
    have hi : e.driven < (net.register e).nodes.size := (Array.getElem?_eq_some_iff.mp hn).1
    have hwf₁ := wellFormed_lock_register hwf hmade hn
    have hdriver : e ∈ ((net.register e).setNode e.driven { n with isLocked := true }).drivers :=
      mem_drivers_register hd
    obtain ⟨⟨k, hk⟩, -⟩ := mem_drivers.mp hdriver
    obtain ⟨changed, net', hsync⟩ :=
      (exists_synchronise_iff hwf₁ hdriver).mpr
        (open_of_free (free_lock_register hfree hne hn) e)
    have h := synchronised hwf₁ hk hd hsync
    have hother {i : Nat} : e.locks i = decide (e.driven = i) := by
      rw [Element.locks, hd, Bool.true_and]
    refine ⟨net', ?_, ?_, fun i => ?_, fun i => ?_, fun {i} hi' c => ?_⟩
    · unfold addElement
      dsimp only
      rw [hd, if_pos rfl]
      exact bind_eq_ok.mpr ⟨(), _, hlock, bind_eq_ok.mpr ⟨changed, net', hsync, rfl⟩⟩
    · rw [elements_of_frame_eq h.frame]
      rfl
    · have hshape : ({ n with isLocked := true } : Node α).potential.shape = n.potential.shape :=
        rfl
      rw [width?_of_frame_eq h.frame, width?_setNode hn hshape, width?_register hne]
    · rw [locked_of_frame_eq h.frame, locked_setNode hi, locked_register hne, hother]
      by_cases hi' : e.driven = i <;> simp [hi']
    · have hi' : e.driven ≠ i := by simpa [hother] using hi'
      rw [h.elsewhere (Ne.symm hi'), potentialAt_setNode_of_ne hi hi', potentialAt_register hne]

/-! ### The boundary -/

omit [Scalar α] in
/-- Only unlocked nodes get locked. -/
theorem locked_of_locks (hmade : e.Made net) (h : e.locks i = true) : net.locked i = false := by
  obtain ⟨hd, hdriven⟩ := Bool.and_eq_true_iff.mp h
  obtain rfl : e.driven = i := of_decide_eq_true hdriven
  obtain ⟨n, hn, hunlocked⟩ := hmade.unlocked hd
  exact (locked_of_getElem? hn).trans hunlocked

/-- In an extended network the new element is one of the `drivers` if it drives. -/
theorem mem_drivers_of_extends (h : Extends e net net') {f : Element α} :
    f ∈ net'.drivers ↔ f ∈ net.drivers ∨ f = e ∧ e.kind.drives = true := by
  rw [drivers, drivers, h.elements, Array.toList_push, List.filter_append, List.mem_append,
    List.mem_filter, List.mem_filter, List.mem_singleton]
  refine or_congr_right (and_congr_right fun hf => ?_)
  rw [hf]

/-- **A new element leaves the `Boundary` alone.** -/
theorem Extends.boundary_iff (h : Extends e net net') (hmade : e.Made net) :
    net'.Boundary i ↔ net.Boundary i := by
  rw [Network.boundary_iff, Network.boundary_iff, h.locked, Bool.or_eq_true]
  constructor
  · rintro ⟨hlocked, hdriven⟩
    refine ⟨hlocked.resolve_right fun hlocks => ?_, fun f hf =>
      hdriven f ((mem_drivers_of_extends h).mpr (.inl hf))⟩
    obtain ⟨hd, hi⟩ := Bool.and_eq_true_iff.mp hlocks
    exact hdriven e ((mem_drivers_of_extends h).mpr (.inr ⟨rfl, hd⟩)) (of_decide_eq_true hi)
  · rintro ⟨hlocked, hdriven⟩
    refine ⟨.inl hlocked, fun f hf hi => ?_⟩
    rcases (mem_drivers_of_extends h).mp hf with hf | ⟨rfl, hd⟩
    · exact hdriven f hf hi
    · have hlocks : f.locks i = true := Bool.and_eq_true_iff.mpr ⟨hd, decide_eq_true hi⟩
      rw [locked_of_locks hmade hlocks] at hlocked
      cases hlocked

/-- A new element leaves the potentials of locked nodes alone. -/
theorem Extends.potentialAt_of_locked (h : Extends e net net') (hmade : e.Made net)
    (hi : net.locked i = true) (c : Nat) : net'.potentialAt i c = net.potentialAt i c := by
  refine h.potentialAt (Bool.eq_false_iff.mpr fun hlocks => ?_) c
  rw [locked_of_locks hmade hlocks] at hi
  cases hi

end Network

end FluxBalance
