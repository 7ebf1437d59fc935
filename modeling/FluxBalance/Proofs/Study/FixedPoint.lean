import FluxBalance.Proofs.Study.Forgetting
import FluxBalance.Proofs.Study.Merging

/-!
# The fixed point of settling

Settling goes over the driving elements in the order in which the network lists them, and it stops
after as many passes as there are driving elements. Neither matters. In whichever order a pass goes
over the elements, it puts one more link of every chain right, and no chain is longer than there are
driving elements; so where there is no loop, every element holds in the end. Potentials at which
every element holds are determined by those of the undriven nodes, which settling leaves alone.
Hence what is reached depends neither on the order nor on the potentials that driven nodes had.

The order is taken as data: a network is compared with one that lists the same elements otherwise.
Settling never looks at the list again once it has picked the driving elements from it, so a run in
the one network is a run in the other.

## Main definitions and results

* `FixedPoint`: what settling has to reach;
* `Rearranges`, `Rearranges.settle_eq_ok`: the order in which elements are listed does not matter
  for it;
* `fixedPoint_of_settle`: settling reaches the fixed point, from any potentials and in any order.
-/

namespace FluxBalance.Network

open FluxBalance.Computation

variable {α : Type} {F a b net start : Network α} {es : List (Element α)}
  {elements : Array (Element α)}

/-! ### Elements in another order -/

/-- The network with other elements. -/
def listing (net : Network α) (elements : Array (Element α)) : Network α :=
  { net with elements := elements }

/-- The networks differ in nothing but potentials and the order in which elements are listed. -/
structure Rearranges [Zero α] (start net : Network α) : Prop where
  frame : (start.listing net.elements).frame = net.frame
  elements : start.elements.toList.Perm net.elements.toList

/-- A network that is rearranged has the same `drivers` in another order. -/
private theorem Rearranges.drivers_perm [Zero α] (h : start.Rearranges net) :
    start.drivers.Perm net.drivers :=
  h.elements.filter _

/-- Looking at what the list of elements has no part in. -/
private theorem mirrors_look {β : Type} {f : Network α → Except (Error α) β}
    (hf : ∀ net : Network α, f (net.listing elements) = f net) :
    Mirrors (fun a b => a = b.listing elements) (NetworkAction.look f) (NetworkAction.look f) := by
  rintro _ b rfl
  unfold NetworkAction.look
  rw [hf b]
  cases f b with
  | ok y => exact .ok y rfl
  | error cause => exact .error cause rfl

/-- Changing a node does not look at the list of elements. -/
private theorem mirrors_changeNode (i : Int) (step : Node α → Except (Error α) (Node α)) :
    Mirrors (fun a b => a = b.listing elements) (changeNode i step) (changeNode i step) := by
  rintro _ b rfl
  unfold changeNode changed
  rw [show (b.listing elements).node i = b.node i from rfl]
  cases b.node i with
  | error cause => exact .error cause rfl
  | ok n =>
    dsimp only [bind, Except.bind]
    cases step n with
    | error cause => exact .error cause rfl
    | ok n' => exact .ok () rfl

variable [Scalar α]

private theorem mirrors_synchronise (e : Element α) :
    Mirrors (fun a b => a = b.listing elements) (synchronise e) (synchronise e) :=
  .bind (mirrors_look fun _ => rfl) fun _ => .bind (mirrors_look fun _ => rfl) fun _ =>
    .bind (mirrors_look fun _ => rfl) fun _ => .bind (mirrors_changeNode _ _) fun _ => .pure _

private theorem mirrors_settlePass : ∀ es : List (Element α),
    Mirrors (fun a b => a = b.listing elements) (settlePass es) (settlePass es)
  | [] => .pure false
  | e :: es => .bind (mirrors_synchronise e) fun _ => .bind (mirrors_settlePass es) fun _ => .pure _

/-- Passes over given elements do not depend on the elements that the network lists. -/
private theorem mirrors_settleWithin (es : List (Element α)) :
    ∀ n, Mirrors (fun a b => a = b.listing elements) (settleWithin es n) (settleWithin es n)
  | 0 => .pure ()
  | n + 1 => .bind (mirrors_settlePass es) fun _ => .ite (mirrors_settleWithin es n) (.pure ())

/-- **Settling a rearranged network** is going over the elements of the network itself in another
order. -/
theorem Rearranges.settle_eq_ok (h : start.Rearranges net) {after : Network α}
    (hafter : settleWithin start.drivers net.drivers.length (start.listing net.elements) =
      .ok () after) : settle start = .ok () (after.listing start.elements) := by
  unfold settle
  rw [h.drivers_perm.length_eq]
  have hends := mirrors_settleWithin start.drivers net.drivers.length start
    (start.listing net.elements) rfl
  rw [hafter] at hends
  generalize settleWithin start.drivers net.drivers.length start = r at hends
  cases hends with
  | ok _ hlisting => rw [hlisting]

/-- The elements may be listed in another order once more. -/
private theorem Rearranges.listing (h : start.Rearranges net)
    (helements : elements.toList.Perm net.elements.toList) :
    (start.listing elements).Rearranges net where
  frame := h.frame
  elements := helements

/-- A network may have any potentials. -/
private theorem rearranges_withPotentials (hwf : net.WellFormed) (V : Nat → Nat → α) :
    (net.withPotentials V).Rearranges net where
  frame := frame_withPotentials hwf V
  elements := .refl _

/-! ### One fixed point -/

/-- **Where all driving elements hold, the undriven nodes determine the potentials**, up to
sameness: along a chain of driving elements each node has the potential that is imposed on it. -/
theorem same_of_holds [Scalar.Lawful α] (hF : F.WellFormed) (ha : a.frame = F.frame)
    (hb : b.frame = F.frame) (hholdsa : ∀ e ∈ F.drivers, e.Holds Scalar.Same a)
    (hholdsb : ∀ e ∈ F.drivers, e.Holds Scalar.Same b)
    (hundriven : ∀ i, (∀ e ∈ F.drivers, e.driven ≠ i) →
      ∀ c, Scalar.Same (a.potentialAt i c) (b.potentialAt i c)) :
    ∀ {d i : Nat}, F.RootedWithin d i →
      ∀ c, Scalar.Same (a.potentialAt i c) (b.potentialAt i c)
  | 0, i, hi, c => hundriven i hi c
  | d + 1, i, hi, c => by
    by_cases hdriven : ∃ e ∈ F.drivers, e.driven = i
    · obtain ⟨e, he, rfl⟩ := hdriven
      by_cases hc : c < e.gain.rows
      · have hdominant := same_of_holds hF ha hb hholdsa hholdsb hundriven (hi e he rfl) c
        exact ((hholdsa e he c hc).trans (e.impose_same c hdominant)).trans
          (hholdsb e he c hc).symm
      · -- Beyond its components every potential is zero.
        obtain ⟨⟨k, hk⟩, hd⟩ := mem_drivers.mp he
        obtain ⟨w, hfits⟩ := hF.fits hk
        have hrows := (hfits.gain_of_drives hd).1
        rw [potentialAt_outside (fits_of_frame_eq ha.symm hfits).driven (by omega),
          potentialAt_outside (fits_of_frame_eq hb.symm hfits).driven (by omega)]
    · exact hundriven i (fun e he hei => hdriven ⟨e, he, hei⟩) c

/-! ### What is reached -/

/-- What settling a network has to reach. -/
structure FixedPoint (start after : Network α) : Prop where
  /-- Nothing but potentials has changed. -/
  frame : after.frame = start.frame
  /-- From the input to the output of each driving element the potential rises by its gain. -/
  rises : ∀ e ∈ start.drivers, ∀ c < e.gain.rows,
    after.potentialAt e.output c = after.potentialAt e.input c + e.gain.entry c 0
  /-- Nodes that no element drives are as before. -/
  undriven : ∀ i, (∀ e ∈ start.drivers, e.driven ≠ i) → after.nodes[i]? = start.nodes[i]?

/-- Going over the driving elements in any order reaches potentials at which all of them hold. -/
private theorem exists_holds_of_perm [Scalar.Lawful α] (hwf : net.WellFormed) (hord : net.Orderly)
    (hroot : ∀ i, net.RootedWithin net.drivers.length i) (hes : es.Perm net.drivers)
    (ha : a.frame = net.frame) : ∃ b, settleWithin es net.drivers.length a = .ok () b ∧
      b.frame = net.frame ∧ ∀ e ∈ net.drivers, e.Holds Scalar.Same b := by
  have hmem : ∀ e ∈ es, e ∈ net.drivers := fun e he => hes.mem_iff.mp he
  obtain ⟨b, hb⟩ := exists_settleWithin hwf hmem (fun e _ => open_of_free hord.free e) _ ha
  have hdrivers : a.drivers = net.drivers := drivers_of_frame_eq ha
  refine ⟨b, hb, (keeps_settleWithin hwf hmem _).of_ok ha hb, ?_⟩
  rw [← hdrivers]
  refine holds_of_settleWithin (hwf.of_frame_eq ha.symm) (hord.of_frame_eq ha.symm)
    (right_zero a) (fun i => (hroot i).of_frame_eq ha.symm) (fun e => ?_) hb
  rw [hdrivers]
  exact hes.mem_iff

/-- **Settling reaches the `FixedPoint`.** In a `Reachable` network without a loop of driving
elements, let the nodes have any potentials and let the elements be listed in any order. Then
settling succeeds, every driving element holds afterwards, no undriven node has changed, and from
any other potentials of the driven nodes, with the elements in any other order, settling leaves the
same nodes. -/
theorem fixedPoint_of_settle [Scalar.Exact α] (hnet : Reachable (fun m => ¬m.Enters) net)
    (hloop : ¬net.HasLoop) (hstart : start.Rearranges net) :
    ∃ after, settle start = .ok () after ∧ FixedPoint start after ∧
      ∀ {other : Network α}, other.Rearranges net →
        (∀ i, (∀ e ∈ net.drivers, e.driven ≠ i) → other.nodes[i]? = start.nodes[i]?) →
        ∃ after', settle other = .ok () after' ∧ after'.nodes = after.nodes := by
  have hwf := wellFormed_of_reachable hnet
  have hord := orderly_of_reachable hnet
  have hroot := rootedWithin_of_not_hasLoop hwf hloop
  have hreach {a : Network α} (ha : a.Rearranges net) :=
    exists_holds_of_perm hwf hord hroot ha.drivers_perm ha.frame
  have hkept {a b : Network α} (ha : a.Rearranges net) (hb : settleWithin a.drivers
      net.drivers.length (a.listing net.elements) = .ok () b) {i : Nat}
      (hi : ∀ e ∈ net.drivers, e.driven ≠ i) : b.nodes[i]? = a.nodes[i]? := by
    have hkeeps : Keeps (fun net => net.nodes[i]? = a.nodes[i]?)
        (settleWithin a.drivers net.drivers.length) :=
      keeps_node_settleWithin (fun e he => hi e (ha.drivers_perm.mem_iff.mp he)) _
    exact hkeeps.of_ok (s := a.listing net.elements) rfl hb
  obtain ⟨b, hb, hframe, hholds⟩ := hreach hstart
  refine ⟨b.listing start.elements, hstart.settle_eq_ok hb, ⟨?_, fun e he c hc => ?_,
    fun i hi => ?_⟩, fun {other} hother hagree => ?_⟩
  · have hnodes := congrArg (listing · start.elements) (hframe.trans hstart.frame.symm)
    exact hnodes
  · exact rises_of_holds (hholds e (hstart.drivers_perm.mem_iff.mp he)) hc
  · exact hkept hstart hb fun e he => hi e (hstart.drivers_perm.mem_iff.mpr he)
  · obtain ⟨b', hb', hframe', hholds'⟩ := hreach hother
    refine ⟨b'.listing other.elements, hother.settle_eq_ok hb', ?_⟩
    -- Both runs end at potentials at which the driving elements hold and which agree at the roots.
    suffices heq : b' = b by rw [heq]; rfl
    refine eq_of_potentialAt_eq (hwf.of_frame_eq hframe'.symm) (hframe'.trans hframe.symm)
      fun i c => Scalar.Exact.same_iff.mp ?_
    refine same_of_holds hwf hframe' hframe hholds' hholds (fun j hj k => .inl ?_) (hroot i) c
    rw [potentialAt, potentialAt, hkept hother hb' hj, hkept hstart hb hj, hagree j hj]

/-- A forward and a backward drive at given potentials, where the second drive, which continues the
first one, is listed before it. -/
def staggeredBackwards (V : Nat → Nat → Rat) : Network Rat :=
  (staggered.withPotentials V).listing staggered.elements.reverse

/-- The network `staggeredBackwards` is `staggered` with its elements in reverse order. -/
private theorem rearranges_staggeredBackwards (V : Nat → Nat → Rat) :
    (staggeredBackwards V).Rearranges staggered := by
  refine (rearranges_withPotentials (wellFormed_of_reachable reachable_staggered) V).listing ?_
  rw [Array.toList_reverse]
  exact List.reverse_perm _

/-- The second drive is synchronised before the first one, and from whatever potentials the two
driven nodes have the same ones are reached. -/
theorem fixedPoint_of_settle_staggered : ∃ after after',
    settle (staggeredBackwards fun i _ => 100 * i + 7) = .ok () after ∧
    FixedPoint (staggeredBackwards fun i _ => 100 * i + 7) after ∧
    settle (staggered.withPotentials fun i _ => if i = 0 ∨ i = 3 then 100 * i + 7 else 0) =
      .ok () after' ∧ after'.nodes = after.nodes := by
  obtain ⟨after, hafter, hfixed, hall⟩ := fixedPoint_of_settle reachable_staggered
    not_hasLoop_staggered (rearranges_staggeredBackwards fun i _ => 100 * i + 7)
  have hother (V : Nat → Nat → Rat) : (staggered.withPotentials V).Rearranges staggered :=
    rearranges_withPotentials (wellFormed_of_reachable reachable_staggered) V
  have hsize : staggered.nodes.size = 4 := by decide +kernel
  have hdriven : ∀ j ∈ [1, 2], ∃ e ∈ staggered.drivers, e.driven = j := by decide +kernel
  obtain ⟨after', hafter', hnodes⟩ := hall
    (hother fun i _ => if i = 0 ∨ i = 3 then 100 * i + 7 else 0) fun i hi => by
      have hundriven : i ≠ 1 ∧ i ≠ 2 := by
        constructor <;> rintro rfl
        · obtain ⟨e, he, h⟩ := hdriven 1 (by simp)
          exact hi e he h
        · obtain ⟨e, he, h⟩ := hdriven 2 (by simp)
          exact hi e he h
      rw [getElem?_withPotentials, staggeredBackwards, listing, getElem?_withPotentials]
      by_cases h : i = 0 ∨ i = 3
      · simp only [h, if_true]
      · rw [Array.getElem?_eq_none (by omega)]
        rfl
  exact ⟨after, after', hafter, hfixed, hafter', hnodes⟩

/-- The backward drive puts its input 3 below the first driven node, which is 10 above the root. -/
example : (finalState (settle (staggeredBackwards fun i _ => 100 * i + 7))).potentialAt 2 0 =
    7 + 10 - 3 := by
  decide +kernel

end FluxBalance.Network
