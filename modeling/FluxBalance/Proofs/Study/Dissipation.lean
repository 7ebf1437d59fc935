import Mathlib.Algebra.BigOperators.Ring.Finset
import Mathlib.Algebra.BigOperators.Ring.List
import Mathlib.Algebra.Order.BigOperators.Group.List
import FluxBalance.Proofs.Network.Resolution
import FluxBalance.Proofs.Study.Solution

/-!
# Uniqueness of balanced potentials

Two states of a `Linear` network that have the same boundary conditions and the same balances differ
by potentials that are the same at both ends of every conductive and of every driving element. For
if the difference at each node is multiplied by what the differences of the fluxes count for there,
the products vanish, and summed over all nodes they are, element by element, minus the conductance
times the square of the change across the element. So from a node the difference can be followed
along such elements to the `Boundary`, where it is zero.

## Main definitions and results

* `Linear`, `Anchored`: networks whose equations have one solution;
* `sum_dissipated`: what two states dissipate of their difference adds up to zero;
* `potentialAt_eq`: so states that are `Network.Alike` have the same potentials.
-/

namespace FluxBalance

open FluxBalance.Computation Network Relation

variable {α : Type} [Scalar α]

/-- The element conducts every component by the same positive number. -/
def Element.Ohmic (e : Element α) : Prop :=
  e.kind = .conductive ∧
    ∃ g, Scalar.lt 0 g = true ∧ e.gain = (DenseMatrix.identity e.gain.rows).scale g

namespace Network

/-- There are conductors, elements of constant flux and driving elements only. -/
def Linear (net : Network α) : Prop :=
  ∀ e ∈ net.elements.toList, e.Ohmic ∨ e.kind = .constantFlux ∨ e.kind = .potentialDrive

/-- A conductive or driving element joins the nodes, in one direction or the other. -/
def Joined (net : Network α) (i j : Nat) : Prop :=
  ∃ e ∈ net.elements.toList, (e.kind = .conductive ∨ e.kind = .potentialDrive) ∧
    (e.input = i ∧ e.output = j ∨ e.input = j ∧ e.output = i)

/-- From every unlocked node conductive and driving elements lead to the boundary. -/
def Anchored (net : Network α) : Prop :=
  ∀ {i : Nat} {n : Node α}, net.nodes[i]? = some n → n.isLocked = false →
    ∃ j, ReflTransGen net.Joined i j ∧ net.Boundary j

theorem Linear.of_frame_eq {a b : Network α} (ha : a.Linear) (h : a.frame = b.frame) :
    b.Linear := by
  unfold Linear
  rw [← elements_of_frame_eq h]
  exact ha

theorem Anchored.of_frame_eq {a b : Network α} (ha : a.Anchored) (h : a.frame = b.frame) :
    b.Anchored := by
  have hjoined : a.Joined = b.Joined := by
    unfold Joined
    rw [elements_of_frame_eq h]
  intro i n hn hunlocked
  obtain ⟨m, hm, hframe⟩ := getElem?_of_frame_eq h.symm hn
  obtain ⟨j, hij, hj⟩ := ha hm ((Node.frame_eq_iff.mp hframe).2.1.symm.trans hunlocked)
  exact ⟨j, hjoined ▸ hij, hj.of_frame_eq h⟩

variable [Scalar.Exact α]

/-! ### Fluxes of linear elements -/

/-- A conductor conducts each component by itself. -/
private theorem passive_of_ohmic {e : Element α} {g : α} (hk : e.kind = .conductive)
    (hg : e.gain = (DenseMatrix.identity e.gain.rows).scale g) (V : Nat → Nat → α) {c : Nat}
    (hc : c < e.gain.rows) : e.passive V c = g * (V e.input c - V e.output c) := by
  have hcols : e.gain.cols = e.gain.rows := congrArg DenseMatrix.cols hg
  have hentry : ∀ k ∈ Finset.range e.gain.rows, e.gain.entry c k * (V e.input k - V e.output k) =
      if c = k then g * (V e.input c - V e.output c) else 0 := by
    intro k hk
    have hk := Finset.mem_range.mp hk
    rw [hg, DenseMatrix.entry_scale (A := .identity _) hc hk, DenseMatrix.entry_identity hc hk]
    by_cases h : c = k
    · subst h
      rw [if_pos rfl, if_pos rfl, one_mul]
    · rw [if_neg h, if_neg h, zero_mul, zero_mul]
  rw [Element.passive, hk]
  dsimp only
  rw [Scalar.Exact.sum_eq_sum, hcols, ← List.sum_toFinset _ List.nodup_range,
    List.toFinset_range, Finset.sum_congr rfl hentry, Finset.sum_ite_eq,
    if_pos (Finset.mem_range.mpr hc)]

end Network

/-! ### Two states -/

/-- Two states of a network at which the driving elements hold and which have the same boundary
conditions and the same balances at unlocked nodes. -/
structure Network.Alike (a b : Network α) : Prop where
  frame : b.frame = a.frame
  holds : ∀ e ∈ a.drivers, e.Holds Scalar.Same a ∧ e.Holds Scalar.Same b
  boundary : ∀ {i : Nat}, a.Boundary i → ∀ c, a.potentialAt i c = b.potentialAt i c
  balanced : ∀ {i : Nat} {n : Node α}, a.nodes[i]? = some n → n.isLocked = false →
    ∀ c < n.components, a.balanceAt i c = b.balanceAt i c

/-- How much more the potential rises across an element in one state than in another. -/
def Network.additionalRise (a b : Network α) (e : Element α) (c : Nat) : α :=
  (b.potentialAt e.output c - a.potentialAt e.output c) -
    (b.potentialAt e.input c - a.potentialAt e.input c)

/-- What an element dissipates of the difference of two states. -/
def Network.dissipated (a b : Network α) (e : Element α) (c : Nat) : α :=
  -(a.additionalRise b e c * (b.fluxAt e c - a.fluxAt e c))

namespace Network.Alike

variable [Scalar.Exact α] {a b : Network α}

/-- At each node the potentials are equal or the differences of the fluxes cancel out. -/
private theorem mul_sum_eq_zero (h : a.Alike b) (hwf : a.WellFormed) (hord : a.Orderly)
    (hloop : ¬a.HasLoop) {i : Nat} (hi : i < a.nodes.size) (c : Nat) :
    (b.potentialAt i c - a.potentialAt i c) *
      ((a.elements.toList.filter fun e => decide (e.Touches i)).map
        fun e => e.signed i (b.fluxAt e c - a.fluxAt e c)).sum = 0 := by
  have hwf' := hwf.of_frame_eq h.frame.symm
  have hloop' : ¬b.HasLoop := mt (hasLoop_of_frame_eq h.frame).mp hloop
  have helements : b.elements = a.elements := elements_of_frame_eq h.frame
  have hresolves {net : Network α} (hwf : net.WellFormed) (hloop : ¬net.HasLoop) (j : Nat) :
      net.Resolves j := (resolves_iff hwf).mpr fun hleads => hloop (hasLoop_of_leadsToLoop hleads)
  obtain ⟨n, hn⟩ : ∃ n, a.nodes[i]? = some n := ⟨_, Array.getElem?_eq_getElem hi⟩
  rw [sum_signed_sub]
  -- At the boundary the potentials agree; at all other nodes the sums do.
  by_cases hdriven : ∀ e ∈ a.drivers, e.driven ≠ i
  · by_cases hlocked : n.isLocked = true
    · rw [h.boundary ⟨n, hn, hlocked, hdriven⟩ c, sub_self, zero_mul]
    · by_cases hc : c < n.components
      · -- At an unlocked node both sums are its balance.
        have hbalance {net : Network α} (hframe : net.frame = a.frame) :
            ((a.elements.toList.filter fun e => decide (e.Touches i)).map
              fun e => e.signed i (net.fluxAt e c)).sum = net.balanceAt i c := by
          have hwf' := hwf.of_frame_eq hframe.symm
          rw [← Scalar.Exact.sum_eq_sum, ← elements_of_frame_eq hframe, sum_touches_undriven hwf'
            (drivers_of_frame_eq hframe ▸ hdriven)
            (hresolves hwf' (mt (hasLoop_of_frame_eq hframe).mp hloop) i)]
        rw [hbalance h.frame, hbalance rfl, h.balanced hn (by simpa using hlocked) c hc, sub_self,
          mul_zero]
      · have hwidth : a.width? i = some n.components := by rw [width?, hn]; rfl
        rw [potentialAt_outside hwidth hc,
          potentialAt_outside ((width?_of_frame_eq h.frame i).trans hwidth) hc, sub_self, zero_mul]
  · -- At a driven node both sums vanish.
    simp only [not_forall, not_not] at hdriven
    obtain ⟨e, he, rfl⟩ := hdriven
    have ha := sum_touches_driven hwf hord he (hresolves hwf hloop _) c
    have hb := sum_touches_driven hwf' (hord.of_frame_eq h.frame.symm)
      (drivers_of_frame_eq h.frame ▸ he) (hresolves hwf' hloop' _) c
    rw [Scalar.Exact.sum_eq_sum] at ha hb
    rw [helements] at hb
    rw [ha, hb, sub_self, mul_zero]

/-- Across a driving element the difference of the potentials does not change. -/
private theorem eq_across_of_drives (h : a.Alike b) (hwf : a.WellFormed) {e : Element α}
    (he : e ∈ a.drivers) (c : Nat) :
    b.potentialAt e.output c - a.potentialAt e.output c =
      b.potentialAt e.input c - a.potentialAt e.input c := by
  obtain ⟨⟨k, hk⟩, hd⟩ := mem_drivers.mp he
  obtain ⟨w, hfits⟩ := hwf.fits hk
  by_cases hc : c < e.gain.rows
  · rw [rises_of_holds (h.holds e he).1 hc, rises_of_holds (h.holds e he).2 hc]
    ring
  · have hc : ¬c < w := (hfits.gain_of_drives hd).1 ▸ hc
    have hfits' : e.Fits b w := fits_of_frame_eq h.frame.symm hfits
    rw [potentialAt_outside hfits.input hc, potentialAt_outside hfits.output hc,
      potentialAt_outside hfits'.input hc, potentialAt_outside hfits'.output hc]

/-- A conductor dissipates its conductance times the square of the additional rise. -/
private theorem exists_dissipated_eq (h : a.Alike b) (hwf : a.WellFormed) {e : Element α}
    (he : e ∈ a.elements.toList) (hohmic : e.Ohmic) (c : Nat) :
    ∃ g : α, 0 < g ∧ a.dissipated b e c = g * a.additionalRise b e c ^ 2 := by
  obtain ⟨w, hfits⟩ := hwf.fits_of_mem e he
  obtain ⟨hk, g, hg, hgain⟩ := hohmic
  refine ⟨g, Scalar.Exact.lt_eq_true_iff.mp hg, ?_⟩
  have hrows : e.gain.rows = w := by
    have hshape := hfits.gain
    rw [hk] at hshape
    exact congrArg Prod.fst hshape
  by_cases hc : c < w
  · have hflux (net : Network α) : net.fluxAt e c =
        g * (net.potentialAt e.input c - net.potentialAt e.output c) := by
      rw [fluxAt, fluxOf, if_neg (by rw [hk]; exact Bool.false_ne_true),
        passive_of_ohmic hk hgain _ (hrows ▸ hc)]
    rw [dissipated, additionalRise, hflux, hflux]
    ring
  · -- Beyond the width of the element there are no potentials, so nothing rises.
    have hfits' : e.Fits b w := fits_of_frame_eq h.frame.symm hfits
    have hrise : a.additionalRise b e c = 0 := by
      simp only [additionalRise, potentialAt_outside hfits.input hc,
        potentialAt_outside hfits.output hc, potentialAt_outside hfits'.input hc,
        potentialAt_outside hfits'.output hc, sub_self]
    rw [dissipated, hrise, zero_mul, neg_zero, zero_pow two_ne_zero, mul_zero]

/-- No element of a `Linear` network takes up more than it dissipates. -/
private theorem dissipated_nonneg (h : a.Alike b) (hwf : a.WellFormed) (hlinear : a.Linear)
    {e : Element α} (he : e ∈ a.elements.toList) (c : Nat) : 0 ≤ a.dissipated b e c := by
  rcases hlinear e he with hohmic | hk | hk
  · obtain ⟨g, hg, heq⟩ := h.exists_dissipated_eq hwf he hohmic c
    rw [heq]
    exact mul_nonneg hg.le (sq_nonneg _)
  · have hflux (net : Network α) : net.fluxAt e c = e.gain.entry c 0 := by
      rw [fluxAt, fluxOf, if_neg (by rw [hk]; exact Bool.false_ne_true), Element.passive, hk]
    rw [dissipated, hflux, hflux, sub_self, mul_zero, neg_zero]
  · have hd : e ∈ a.drivers := List.mem_filter.mpr ⟨he, by rw [hk]; rfl⟩
    have hrise : a.additionalRise b e c = 0 := sub_eq_zero.mpr (h.eq_across_of_drives hwf hd c)
    rw [dissipated, hrise, zero_mul, neg_zero]

/-- **All that is dissipated adds up to zero**: summed over the nodes instead, it is what the
differences of the potentials and the fluxes make of each node, which is nothing. -/
theorem sum_dissipated (h : a.Alike b) (hwf : a.WellFormed) (hord : a.Orderly)
    (hloop : ¬a.HasLoop) (c : Nat) :
    (a.elements.toList.map fun e => a.dissipated b e c).sum = 0 := by
  have hends : ∀ f ∈ a.elements.toList,
      f.input < a.nodes.size ∧ f.output < a.nodes.size ∧ f.input ≠ f.output := by
    intro f hf
    obtain ⟨w, hfits⟩ := hwf.fits_of_mem f hf
    exact ⟨lt_size_of_width? hfits.input, lt_size_of_width? hfits.output, hfits.ends_ne⟩
  have hzero := sum_mul_signed (fun i => b.potentialAt i c - a.potentialAt i c)
    (fun f => b.fluxAt f c - a.fluxAt f c) hends
  rw [Finset.sum_eq_zero fun i hi =>
    h.mul_sum_eq_zero hwf hord hloop (Finset.mem_range.mp hi) c] at hzero
  rw [← neg_zero, hzero, List.sum_neg, List.map_map]
  rfl

/-- **Across conductors the difference of the potentials does not change.** -/
theorem eq_across_of_conductive (h : a.Alike b) (hwf : a.WellFormed) (hord : a.Orderly)
    (hloop : ¬a.HasLoop) (hlinear : a.Linear) {e : Element α} (he : e ∈ a.elements.toList)
    (hk : e.kind = .conductive) (c : Nat) :
    b.potentialAt e.output c - a.potentialAt e.output c =
      b.potentialAt e.input c - a.potentialAt e.input c := by
  have hohmic : e.Ohmic := by
    rcases hlinear e he with hohmic | hother | hother
    · exact hohmic
    · rw [hk] at hother
      cases hother
    · rw [hk] at hother
      cases hother
  obtain ⟨g, hg, heq⟩ := h.exists_dissipated_eq hwf he hohmic c
  have hterm := List.all_zero_of_le_zero_le_of_sum_eq_zero (fun x hx => by
    obtain ⟨f, hf, rfl⟩ := List.mem_map.mp hx
    exact h.dissipated_nonneg hwf hlinear hf c) (h.sum_dissipated hwf hord hloop c)
      (List.mem_map.mpr ⟨e, he, rfl⟩)
  rw [heq] at hterm
  exact sub_eq_zero.mp (pow_eq_zero_iff two_ne_zero |>.mp
    ((mul_eq_zero.mp hterm).resolve_left hg.ne'))

/-- **Balanced potentials are unique**: at a node from which conductive and driving elements lead to
the `Boundary`, the two states have the same potential. -/
theorem potentialAt_eq (h : a.Alike b) (hwf : a.WellFormed) (hord : a.Orderly)
    (hloop : ¬a.HasLoop) (hlinear : a.Linear) {i j : Nat} (hij : ReflTransGen a.Joined i j)
    (hj : a.Boundary j) (c : Nat) : a.potentialAt i c = b.potentialAt i c := by
  induction hij using ReflTransGen.head_induction_on with
  | refl => exact h.boundary hj c
  | @head i k hik _ ih =>
    obtain ⟨e, he, hkind, hends⟩ := hik
    have hacross : b.potentialAt e.output c - a.potentialAt e.output c =
        b.potentialAt e.input c - a.potentialAt e.input c := by
      rcases hkind with hk | hk
      · exact h.eq_across_of_conductive hwf hord hloop hlinear he hk c
      · exact h.eq_across_of_drives hwf (List.mem_filter.mpr ⟨he, by rw [hk]; rfl⟩) c
    rcases hends with ⟨rfl, rfl⟩ | ⟨rfl, rfl⟩
    · rw [ih, sub_self] at hacross
      exact (sub_eq_zero.mp hacross.symm).symm
    · rw [ih, sub_self] at hacross
      exact (sub_eq_zero.mp hacross).symm

end Network.Alike

end FluxBalance
