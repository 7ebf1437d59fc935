import Mathlib.Tactic.LinearCombination
import FluxBalance.Proofs.Network.Orientation

/-!
# Reversed elements

The ends of an element can be exchanged if its gain is negated along with them, where the gain has a
direction: constant fluxes and rises of the potential. The flux is then the negative one, and what
it counts for at both nodes is the same. For elements that do not drive this can be seen from the
potentials. The flux of a driving element follows from the balance of the node that it drives, which
may be the other end in the other network. But once the unlocked nodes of the one network balance,
its fluxes add up to zero at every node that is not a boundary condition; and at the nodes that
elements drive in the other network, the fluxes of that network add up to zero by themselves. So
going from the leaves of its trees to their roots, the fluxes of both networks agree, and then its
unlocked nodes balance as well.

## Main definitions and results

* `Matches`, `Redirected`: one element and its reversal, and networks some of whose elements are
  turned;
* `Balanced`: the balances of unlocked nodes vanish;
* `fluxAt_eq`, `balanced`: turned elements have the negative fluxes, and so unlocked nodes balance
  in both networks.
-/

namespace FluxBalance

variable {α : Type} [Scalar α]

namespace Scalar.Exact

variable [Scalar.Exact α]

private theorem sign_neg (x : α) : Scalar.sign (-x) = -Scalar.sign x := by
  simp only [Scalar.sign, lt_eq_true_iff, eq_iff, neg_pos, neg_lt_zero, neg_eq_zero]
  rcases lt_trichotomy x 0 with h | rfl | h
  · simp [h, h.not_gt]
  · simp
  · simp [h, h.not_gt]

end Scalar.Exact

/-- The square-root law is odd. -/
private theorem Network.orificeFlux_neg [Scalar.Exact α] (gain drop : α) :
    orificeFlux gain (-drop) = -orificeFlux gain drop := by
  rw [orificeFlux, orificeFlux, Scalar.Exact.sign_neg, Scalar.Exact.abs_eq_abs,
    Scalar.Exact.abs_eq_abs, abs_neg]
  ring

namespace DenseMatrix

variable [Scalar.Exact α]

/-- The entries of the negative matrix, also outside of it. -/
theorem entry_neg_of_exact (A : DenseMatrix α) (i j : Nat) : A.neg.entry i j = -A.entry i j := by
  by_cases h : i < A.rows ∧ j < A.cols
  · exact entry_neg h.1 h.2
  · rw [entry_outside _ h, entry_outside A.neg h, neg_zero]

/-- The opposite of the opposite matrix is the matrix. -/
private theorem neg_neg_of_exact (A : DenseMatrix α) : A.neg.neg = A :=
  ext_entry rfl rfl fun i j _ _ => by rw [entry_neg_of_exact, entry_neg_of_exact, neg_neg]

end DenseMatrix

/-- The gain of elements of the kind has a direction. -/
def ElementKind.isDirected : ElementKind → Bool
  | constantFlux | potentialDrive => true
  | conductive | orifice => false

namespace Element

variable {turned : Bool} {e f : Element α} {i : Nat}

/-- A flux, seen from an element that may be turned. -/
def turn (turned : Bool) (x : α) : α := if turned then -x else x

/-- The second element is the first one, or its reversal if it is turned; which end it drives is
left open. -/
structure Matches (turned : Bool) (e f : Element α) : Prop where
  kind : f.kind = e.kind
  input : f.input = if turned then e.output else e.input
  output : f.output = if turned then e.input else e.output
  gain : f.gain = if turned && e.kind.isDirected then e.gain.neg else e.gain

namespace Matches

theorem touches_iff (h : Matches turned e f) : f.Touches i ↔ e.Touches i := by
  rw [Touches, Touches, h.input, h.output]
  cases turned
  · rfl
  · exact or_comm

theorem refl (e : Element α) : Matches false e e := ⟨rfl, rfl, rfl, rfl⟩

theorem rows_gain (h : Matches turned e f) : f.gain.rows = e.gain.rows := by
  rw [h.gain]
  split <;> rfl

/-- Which end is driven does not matter to `Matches`. -/
theorem unoriented_iff : Matches turned e.unoriented f.unoriented ↔ Matches turned e f :=
  ⟨fun h => ⟨h.kind, h.input, h.output, h.gain⟩, fun h => ⟨h.kind, h.input, h.output, h.gain⟩⟩

variable [Scalar.Exact α]

theorem symm (h : Matches turned e f) : Matches turned f e where
  kind := h.kind.symm
  input := by rw [h.input, h.output]; cases turned <;> rfl
  output := by rw [h.input, h.output]; cases turned <;> rfl
  gain := by
    rw [h.gain, h.kind]
    cases turned && e.kind.isDirected
    · rfl
    · exact (DenseMatrix.neg_neg_of_exact _).symm

/-- The drop of the potential across the reversal is the negative one. -/
private theorem drop_eq (h : Matches turned e f) (V : Nat → Nat → α) (c : Nat) :
    V f.input c - V f.output c = turn turned (V e.input c - V e.output c) := by
  rw [h.input, h.output]
  cases turned
  · rfl
  · exact (neg_sub _ _).symm

/-- **The flux of the reversal of an element that does not drive is the negative one.** -/
theorem passive (h : Matches turned e f) (V : Nat → Nat → α) (c : Nat) :
    f.passive V c = turn turned (e.passive V c) := by
  have hdrop := h.drop_eq V
  have hgain := h.gain
  unfold Element.passive
  rw [h.kind]
  -- A directed element is reversed by its gain, any other by the drop of the potential across it.
  cases hk : e.kind <;> rw [hk] at hgain
  case conductive =>
    simp only [ElementKind.isDirected, Bool.and_false, Bool.false_eq_true, if_false] at hgain
    simp only [hgain, hdrop, Scalar.Exact.sum_eq_sum]
    cases turned
    · rfl
    · simp only [turn, if_true, mul_neg]
      rw [List.sum_neg, List.map_map]
      rfl
  case constantFlux =>
    simp only [ElementKind.isDirected, Bool.and_true] at hgain
    rw [hgain]
    cases turned
    · rfl
    · exact DenseMatrix.entry_neg_of_exact _ _ _
  case orifice =>
    simp only [ElementKind.isDirected, Bool.and_false, Bool.false_eq_true, if_false] at hgain
    simp only [hgain, hdrop]
    cases turned
    · rfl
    · exact Network.orificeFlux_neg _ _
  case potentialDrive =>
    cases turned
    · rfl
    · exact neg_zero.symm

/-- What fluxes count for at a node is the same exactly if one is the other, seen from there. -/
private theorem signed_eq_iff (h : Matches turned e f) (hne : e.input ≠ e.output) (hi : e.Touches i)
    {x y : α} : f.signed i y = e.signed i x ↔ y = turn turned x := by
  unfold signed
  rw [h.output]
  cases turned with
  | false =>
    by_cases ho : i = e.output
    · simp [turn, ho]
    · simp [turn, ho]
  | true =>
    rcases hi with rfl | rfl
    · simp [turn, hne]
    · simp [turn, hne.symm, neg_eq_iff_eq_neg]

/-- Across the reversal of a driving element the potential rises by the negative gain. -/
theorem rises_iff (h : Matches turned e f) (hd : e.kind.drives = true) (V : Nat → Nat → α)
    (c : Nat) : V f.output c = V f.input c + f.gain.entry c 0 ↔
      V e.output c = V e.input c + e.gain.entry c 0 := by
  have hdirected : e.kind.isDirected = true := by
    cases hk : e.kind <;> simp_all [ElementKind.drives, ElementKind.isDirected]
  rw [h.input, h.output, h.gain, hdirected, Bool.and_true]
  cases turned with
  | false => rfl
  | true =>
    simp only [if_true, DenseMatrix.entry_neg_of_exact]
    constructor <;> intro hrise
    · rw [hrise]
      ring
    · rw [hrise]
      ring

end Matches

end Element

namespace Network

variable {net a b : Network α}

/-- The balances of unlocked nodes vanish. -/
def Balanced (net : Network α) : Prop :=
  ∀ ⦃i : Nat⦄ ⦃n : Node α⦄, net.nodes[i]? = some n → n.isLocked = false →
    ∀ c < n.components, net.balanceAt i c = 0

/-- Driving elements lead from nodes that are not driven to all others, and never back. -/
structure Forested (net : Network α) : Prop where
  wellFormed : net.WellFormed
  orderly : net.Orderly
  acyclic : ¬net.HasLoop

/-- The networks have the same elements, some of them turned, and the same boundary. -/
structure Redirected (a b : Network α) : Prop where
  width : ∀ i, a.width? i = b.width? i
  elements : List.Forall₂ (fun e f => ∃ turned, Element.Matches turned e f)
    a.elements.toList b.elements.toList
  boundary : ∀ i, a.Boundary i ↔ b.Boundary i

/-! ### Fluxes that add up to zero -/

omit [Scalar α] in
theorem Forested.resolves (h : net.Forested) (i : Nat) : net.Resolves i :=
  (resolves_iff h.wellFormed).mpr fun hleads => h.acyclic (hasLoop_of_leadsToLoop hleads)

theorem Forested.of_frame_eq (ha : a.Forested) (h : a.frame = b.frame) : b.Forested where
  wellFormed := ha.wellFormed.of_frame_eq h
  orderly := ha.orderly.of_frame_eq h
  acyclic := mt (hasLoop_of_frame_eq h).mpr ha.acyclic

omit [Scalar α] in
/-- What a driving element touches, it drives or drives from. -/
private theorem eq_dominant_of_touches {e : Element α} {i : Nat} (hi : e.Touches i)
    (hne : e.driven ≠ i) : i = e.dominant := by
  unfold Element.driven at hne
  unfold Element.dominant
  rcases hi with rfl | rfl <;> split at hne <;> simp_all

/-- **If unlocked nodes balance, the fluxes add up to zero at every node that is not a `Boundary`
condition**, where every element counts at both of its nodes. -/
theorem sum_touches_eq_zero [Scalar.Exact α] (h : net.Forested) (hbalanced : net.Balanced)
    {i w : Nat} (hw : net.width? i = some w) (hi : ¬net.Boundary i) {c : Nat} (hc : c < w) :
    ((net.elements.toList.filter fun e => decide (e.Touches i)).map
      fun e => e.signed i (net.fluxAt e c)).sum = 0 := by
  obtain ⟨n, hn, rfl⟩ := width?_eq_some.mp hw
  by_cases hdriven : ∀ e ∈ net.drivers, e.driven ≠ i
  · have hunlocked : n.isLocked = false := by
      by_contra hlocked
      exact hi ⟨n, hn, by simpa using hlocked, hdriven⟩
    rw [← Scalar.Exact.sum_eq_sum, sum_touches_undriven h.wellFormed hdriven (h.resolves i)]
    exact hbalanced hn hunlocked c hc
  · simp only [not_forall, not_not] at hdriven
    obtain ⟨e, he, rfl⟩ := hdriven
    rw [← Scalar.Exact.sum_eq_sum]
    exact sum_touches_driven h.wellFormed h.orderly he (h.resolves _) c

namespace Redirected

/-! ### Elements in pairs -/

/-- The elements of both networks, position by position. -/
def pairs (a b : Network α) : List (Element α × Element α) :=
  a.elements.toList.zip b.elements.toList

omit [Scalar α] in
theorem mem_pairs_iff {p : Element α × Element α} : p ∈ pairs a b ↔
    ∃ k : Nat, a.elements[k]? = some p.1 ∧ b.elements[k]? = some p.2 := by
  simp only [pairs, List.mem_iff_getElem?, List.getElem?_zip_eq_some, Array.getElem?_toList]

theorem exists_matches (h : a.Redirected b) {p : Element α × Element α} (hp : p ∈ pairs a b) :
    ∃ turned, Element.Matches turned p.1 p.2 :=
  (List.forall₂_iff_zip.mp h.elements).2 hp

/-- A sum over elements that touch a node, as one over `pairs`. -/
private theorem map_fst_pairs (h : a.Redirected b) (i : Nat) (g : Element α → α) :
    (a.elements.toList.filter fun e => decide (e.Touches i)).map g =
      ((pairs a b).filter fun p => decide (p.1.Touches i)).map fun p => g p.1 := by
  have hfst : (pairs a b).map Prod.fst = a.elements.toList :=
    List.map_fst_zip (List.forall₂_iff_zip.mp h.elements).1.le
  rw [← hfst, List.filter_map, List.map_map]
  rfl

/-- What is summed over the elements of the second network at a node is summed over the `pairs` that
touch it. -/
private theorem map_snd_pairs (h : a.Redirected b) (i : Nat) (g : Element α → α) :
    (b.elements.toList.filter fun e => decide (e.Touches i)).map g =
      ((pairs a b).filter fun p => decide (p.1.Touches i)).map fun p => g p.2 := by
  have hsnd : (pairs a b).map Prod.snd = b.elements.toList :=
    List.map_snd_zip (List.forall₂_iff_zip.mp h.elements).1.ge
  rw [← hsnd, List.filter_map, List.map_map]
  refine congrArg (List.map _) (List.filter_congr fun p hp => ?_)
  obtain ⟨turned, hmatches⟩ := h.exists_matches hp
  simp only [Function.comp_apply, hmatches.touches_iff]

/-- Where the `pairs` are split, the elements of the second network are. -/
private theorem toList_eq_append (h : a.Redirected b) {before after : List (Element α × Element α)}
    {p : Element α × Element α} (hsplit : pairs a b = before ++ p :: after) :
    b.elements.toList = before.map Prod.snd ++ p.2 :: after.map Prod.snd := by
  rw [← List.map_snd_zip (List.forall₂_iff_zip.mp h.elements).1.ge, ← List.map_cons,
    ← List.map_append, ← hsplit]
  rfl

variable [Scalar.Exact α]

/-- If what counts at a node adds up to zero in both networks, and agrees in all `pairs` but one,
then it agrees in that one, too. -/
private theorem signed_eq_of_others (h : a.Redirected b)
    {before after : List (Element α × Element α)} {p : Element α × Element α}
    (hsplit : pairs a b = before ++ p :: after) {i : Nat}
    (hself : p.1.Touches i) {x y : Element α → α}
    (hx : ((a.elements.toList.filter fun e => decide (e.Touches i)).map
      fun e => e.signed i (x e)).sum = 0)
    (hy : ((b.elements.toList.filter fun e => decide (e.Touches i)).map
      fun e => e.signed i (y e)).sum = 0)
    (hothers : ∀ q ∈ before ++ after, q.1.Touches i →
      q.2.signed i (y q.2) = q.1.signed i (x q.1)) :
    p.2.signed i (y p.2) = p.1.signed i (x p.1) := by
  rw [h.map_fst_pairs] at hx
  rw [h.map_snd_pairs] at hy
  have hpart (l : List (Element α × Element α)) (hl : l ⊆ before ++ after) :
      ((l.filter fun q => decide (q.1.Touches i)).map fun q => q.2.signed i (y q.2)) =
        (l.filter fun q => decide (q.1.Touches i)).map fun q => q.1.signed i (x q.1) :=
    List.map_congr_left fun q hq =>
      hothers q (hl (List.mem_filter.mp hq).1) (by simpa using (List.mem_filter.mp hq).2)
  have hcons : (p :: after).filter (fun q => decide (q.1.Touches i)) =
      p :: after.filter fun q => decide (q.1.Touches i) :=
    List.filter_cons_of_pos (decide_eq_true hself)
  rw [hsplit, List.filter_append, hcons, List.map_append, List.map_cons, List.sum_append,
    List.sum_cons] at hx hy
  rw [hpart before (List.subset_append_left _ _), hpart after (List.subset_append_right _ _)] at hy
  linear_combination hy - hx

/-! ### Fluxes -/

omit [Scalar α] [Scalar.Exact α] in
/-- An element fits the width of the nodes that it touches. -/
theorem width?_of_touches {e : Element α} {i w : Nat} (hi : e.Touches i) (hfits : e.Fits net w) :
    net.width? i = some w := by
  rcases hi with rfl | rfl
  · exact hfits.input
  · exact hfits.output

/-- At the same potentials the flux of an element that does not drive changes its sign if it is
turned. -/
private theorem fluxAt_eq_of_not_drives (hV : ∀ i c, a.potentialAt i c = b.potentialAt i c)
    {turned : Bool} {e f : Element α} (h : Element.Matches turned e f) (hd : f.kind.drives = false)
    (c : Nat) :
    b.fluxAt f c = Element.turn turned (a.fluxAt e c) := by
  have hpotential : a.potentialAt = b.potentialAt := funext fun i => funext (hV i)
  rw [fluxAt, fluxAt, fluxOf, fluxOf, ← h.kind, if_neg (by simp [hd]), if_neg (by simp [hd]),
    ← hpotential]
  exact h.passive _ c

/-- **The fluxes of driving elements agree**, by induction on the driving elements that follow one
another from the node that is driven. Every other element at that node does not drive, or drives
from it. -/
theorem fluxAt_eq_of_drives (h : a.Redirected b)
    (hV : ∀ i c, a.potentialAt i c = b.potentialAt i c) (ha : a.Forested) (hb : b.Forested)
    (hbalanced : a.Balanced) : ∀ {d : Nat} {p : Element α × Element α} {turned : Bool} {w c : Nat},
      p ∈ pairs a b → Element.Matches turned p.1 p.2 → p.2.kind.drives = true →
      ResolvesWithin b.elements.toList d p.2.driven → p.2.Fits b w → c < w →
      b.fluxAt p.2 c = Element.turn turned (a.fluxAt p.1 c)
  | d + 1, p, turned, w, c, hp, hmatches, hd, hres, hfits, hc => by
    obtain ⟨k, hk, hk'⟩ := mem_pairs_iff.mp hp
    obtain ⟨before, after, hsplit⟩ := List.append_of_mem hp
    have he : p.2 ∈ b.drivers := mem_drivers.mpr ⟨⟨k, hk'⟩, hd⟩
    have hself : p.1.Touches p.2.driven :=
      hmatches.touches_iff.mp ((touches_iff hfits).mpr (.inr ⟨hd, rfl⟩))
    -- In the first network nothing need drive this node, but it is no boundary condition there.
    have hsuma := sum_touches_eq_zero ha hbalanced ((h.width _).trans hfits.driven)
      (fun hi => by
        obtain ⟨_, _, _, hdriven⟩ := (h.boundary _).mp hi
        exact hdriven p.2 he rfl) hc
    have hsumb := sum_touches_driven hb.wellFormed hb.orderly he (hb.resolves _) c
    rw [Scalar.Exact.sum_eq_sum] at hsumb
    have hothers : ∀ q ∈ before ++ after, q.1.Touches p.2.driven →
        q.2.signed p.2.driven (b.fluxAt q.2 c) = q.1.signed p.2.driven (a.fluxAt q.1 c) := by
      intro q hq hi
      have hmem : q ∈ pairs a b := by
        rw [hsplit]
        rcases List.mem_append.mp hq with hq | hq
        · exact List.mem_append_left _ hq
        · exact List.mem_append_right _ (List.mem_cons_of_mem _ hq)
      obtain ⟨l, hl, hl'⟩ := mem_pairs_iff.mp hmem
      obtain ⟨s, hs⟩ := h.exists_matches hmem
      obtain ⟨_, hfitsa⟩ := ha.wellFormed.fits hl
      obtain ⟨w', hfitsb⟩ := hb.wellFormed.fits hl'
      refine (hs.signed_eq_iff hfitsa.ends_ne hi).mpr ?_
      cases hqd : q.2.kind.drives with
      | false => exact fluxAt_eq_of_not_drives hV hs hqd c
      | true =>
        -- It drives from this node another one, which is closer to the leaves.
        have hne := hb.orderly.driven_ne_of_eq_append (h.toList_eq_append hsplit) hd q.2
          (by rw [← List.map_append]; exact List.mem_map_of_mem hq) hqd
        have hi' := hs.touches_iff.mpr hi
        have hdominant := eq_dominant_of_touches hi' hne
        have hw : w = w' :=
          Option.some.inj (hfits.driven.symm.trans (width?_of_touches hi' hfitsb))
        rw [hdominant] at hres
        exact fluxAt_eq_of_drives h hV ha hb hbalanced hmem hs hqd
          (resolvesWithin_of_dominant (mem_drivers.mpr ⟨⟨l, hl'⟩, hqd⟩) hres) hfitsb (hw ▸ hc)
    obtain ⟨_, hfitsa⟩ := ha.wellFormed.fits hk
    exact (hmatches.signed_eq_iff hfitsa.ends_ne hself).mp
      (h.signed_eq_of_others hsplit hself hsuma hsumb hothers)

/-- **Turned elements have the negative fluxes, all others the same ones**, if the unlocked nodes of
the first network balance. -/
theorem fluxAt_eq (h : a.Redirected b) (hV : ∀ i c, a.potentialAt i c = b.potentialAt i c)
    (ha : a.Forested) (hb : b.Forested) (hbalanced : a.Balanced) {p : Element α × Element α}
    (hp : p ∈ pairs a b) {turned : Bool} (hmatches : Element.Matches turned p.1 p.2) {w c : Nat}
    (hfits : p.2.Fits b w) (hc : c < w) :
    b.fluxAt p.2 c = Element.turn turned (a.fluxAt p.1 c) := by
  cases hd : p.2.kind.drives with
  | false => exact fluxAt_eq_of_not_drives hV hmatches hd c
  | true =>
    exact h.fluxAt_eq_of_drives hV ha hb hbalanced hp hmatches hd (hb.resolves _) hfits hc

/-! ### Balances -/

/-- **Unlocked nodes balance in the one network if they do in the other.** -/
theorem balanced (h : a.Redirected b) (hV : ∀ i c, a.potentialAt i c = b.potentialAt i c)
    (ha : a.Forested) (hb : b.Forested) (hbalanced : a.Balanced) : b.Balanced := by
  intro i n hn hunlocked c hc
  have hundriven := hb.orderly.undriven hn hunlocked
  have hwidth : b.width? i = some n.components := width?_eq_some.mpr ⟨n, hn, rfl⟩
  have hboundary : ¬a.Boundary i := by
    intro hi
    obtain ⟨m, hm, hlocked, -⟩ := (h.boundary i).mp hi
    rw [hn] at hm
    cases hm
    rw [hunlocked] at hlocked
    cases hlocked
  -- At an unlocked node an element counts for the same as the one that it is paired with.
  have hsigned : ∀ p ∈ (pairs a b).filter (fun p => decide (p.1.Touches i)),
      p.2.signed i (b.fluxAt p.2 c) = p.1.signed i (a.fluxAt p.1 c) := by
    intro p hp
    obtain ⟨hp, hi⟩ := List.mem_filter.mp hp
    have hi : p.1.Touches i := of_decide_eq_true hi
    obtain ⟨k, hk, hk'⟩ := mem_pairs_iff.mp hp
    obtain ⟨_, hfits⟩ := ha.wellFormed.fits hk
    obtain ⟨w, hfits'⟩ := hb.wellFormed.fits hk'
    obtain ⟨turned, hmatches⟩ := h.exists_matches hp
    have hw : n.components = w :=
      Option.some.inj (hwidth.symm.trans (width?_of_touches (hmatches.touches_iff.mpr hi) hfits'))
    exact (hmatches.signed_eq_iff hfits.ends_ne hi).mpr
      (h.fluxAt_eq hV ha hb hbalanced hp hmatches hfits' (hw ▸ hc))
  calc b.balanceAt i c
      = ((b.elements.toList.filter fun e => decide (e.Touches i)).map
          fun e => e.signed i (b.fluxAt e c)).sum := by
        rw [← Scalar.Exact.sum_eq_sum, sum_touches_undriven hb.wellFormed hundriven (hb.resolves i)]
    _ = ((a.elements.toList.filter fun e => decide (e.Touches i)).map
          fun e => e.signed i (a.fluxAt e c)).sum := by
        rw [h.map_snd_pairs, h.map_fst_pairs, List.map_congr_left hsigned]
    _ = 0 := sum_touches_eq_zero ha hbalanced ((h.width i).trans hwidth) hboundary hc

theorem symm (h : a.Redirected b) : b.Redirected a where
  width i := (h.width i).symm
  elements := (h.elements.imp fun _ _ ⟨turned, ht⟩ => ⟨turned, ht.symm⟩).flip
  boundary i := (h.boundary i).symm

omit [Scalar.Exact α] in
theorem of_frame_eq {a' b' : Network α} (h : a.Redirected b) (ha : a.frame = a'.frame)
    (hb : b.frame = b'.frame) : a'.Redirected b' where
  width i := by rw [← width?_of_frame_eq ha, ← width?_of_frame_eq hb, h.width]
  elements := by
    rw [← elements_of_frame_eq ha, ← elements_of_frame_eq hb]
    exact h.elements
  boundary i :=
    ⟨fun hi => ((h.boundary i).mp (hi.of_frame_eq ha.symm)).of_frame_eq hb,
      fun hi => ((h.boundary i).mpr (hi.of_frame_eq hb.symm)).of_frame_eq ha⟩

end Redirected

end Network

end FluxBalance
