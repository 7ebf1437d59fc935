import Mathlib.Algebra.BigOperators.Ring.Finset
import Mathlib.Algebra.BigOperators.Ring.List
import Mathlib.Tactic.Ring
import FluxBalance.Proofs.Network.Flux
import FluxBalance.Proofs.Scalar.Exact

/-!
# Fluxes at both ends of an element

An element enters the balances of its two nodes, except that a driving element leaves out the node
that it drives. If every element counts at both of its ends, the fluxes balance at driven nodes as
well, for the flux of the driving element makes up the balance there. Summed over all nodes, what
fluxes count for can be summed over the elements instead.

## Main definitions and results

* `Element.Touches`: the node is an end of the element;
* `sum_touches_driven`: at a driven node the driving element makes up the balance;
* `sum_mul_signed`: summation by parts over the nodes and over the elements.
-/

namespace FluxBalance

open FluxBalance.Computation

variable {α : Type} [Scalar α]

/-- The node is an end of the element. -/
def Element.Touches (e : Element α) (i : Nat) : Prop := i = e.input ∨ i = e.output

instance (e : Element α) (i : Nat) : Decidable (e.Touches i) :=
  inferInstanceAs (Decidable (_ ∨ _))

namespace Network

/-! ### Elements that touch a node -/

omit [Scalar α] in
/-- The elements that touch a node are those that enter its balance and those that drive it. -/
theorem touches_iff {net : Network α} {e : Element α} {w : Nat} (h : e.Fits net w) {i : Nat} :
    e.Touches i ↔ i ∈ e.endpoints ∨ (e.kind.drives = true ∧ e.driven = i) := by
  have hdriven : e.driven = e.input ∨ e.driven = e.output := by
    unfold Element.driven
    split
    · exact .inr rfl
    · exact .inl rfl
  rw [Element.mem_endpoints h.ends_ne, Element.Touches]
  constructor
  · intro hi
    by_cases hd : e.kind.drives = true ∧ e.driven = i
    · exact .inr hd
    · exact .inl ⟨hi, fun hdrives heq => hd ⟨hdrives, heq.symm⟩⟩
  · rintro (⟨hi, -⟩ | ⟨-, rfl⟩)
    · exact hi
    · exact hdriven

omit [Scalar α] in
/-- At a node that is not driven, what touches it enters its balance. -/
private theorem filter_touches {net : Network α} {es : List (Element α)} {i : Nat}
    (hfits : ∀ e ∈ es, ∃ w, e.Fits net w)
    (hi : ∀ e ∈ es, e.kind.drives = true → e.driven ≠ i) :
    es.filter (fun e => decide (e.Touches i)) = entering es i := by
  refine List.filter_congr fun e he => ?_
  obtain ⟨w, hw⟩ := hfits e he
  rw [decide_eq_decide, touches_iff hw]
  exact or_iff_left fun hd => hi e he hd.1 hd.2

omit [Scalar α] in
/-- No two driving elements drive the same node. -/
theorem Orderly.nodup_driven {net : Network α} (h : net.Orderly) :
    (net.drivers.map Element.driven).Nodup := by
  rw [List.Nodup, List.pairwise_map, drivers, List.pairwise_filter, List.pairwise_iff_getElem]
  intro k l hk hl hkl hkd hld heq
  have hk' : net.elements[k]? = some net.elements.toList[k] := by
    rw [← Array.getElem?_toList, List.getElem?_eq_getElem hk]
  have hl' : net.elements[l]? = some net.elements.toList[l] := by
    rw [← Array.getElem?_toList, List.getElem?_eq_getElem hl]
  exact absurd (h.driven_inj hk' hl' hkd hld heq) hkl.ne

omit [Scalar α] in
/-- The elements before and after a driving element drive other nodes. -/
theorem Orderly.driven_ne_of_eq_append {net : Network α} (h : net.Orderly)
    {before after : List (Element α)} {e : Element α}
    (hsplit : net.elements.toList = before ++ e :: after) (hd : e.kind.drives = true) :
    ∀ f ∈ before ++ after, f.kind.drives = true → f.driven ≠ e.driven := by
  intro f hf hfd heq
  have hcons : (e :: after).filter (fun e => e.kind.drives) =
      e :: after.filter fun e => e.kind.drives := List.filter_cons_of_pos hd
  have hnodup := h.nodup_driven
  rw [drivers, hsplit, List.filter_append, hcons, List.map_append, List.map_cons, List.nodup_middle,
    List.nodup_cons, ← List.map_append, ← List.filter_append] at hnodup
  exact hnodup.1 (heq ▸ List.mem_map_of_mem (List.mem_filter.mpr ⟨hf, hfd⟩))

/-! ### Fluxes that add up -/

/-- At a node that is not driven the fluxes add up to the balance. -/
theorem sum_touches_undriven {net : Network α} (hwf : net.WellFormed) {i : Nat}
    (hi : ∀ e ∈ net.drivers, e.driven ≠ i) (hres : net.Resolves i) (c : Nat) :
    Scalar.sum ((net.elements.toList.filter fun e => decide (e.Touches i)).map
      fun e => e.signed i (net.fluxAt e c)) = net.balanceAt i c := by
  rw [balanceAt_eq_sum hres, filter_touches hwf.fits_of_mem fun e he hd =>
    hi e (List.mem_filter.mpr ⟨he, hd⟩)]

/-- The flux of a driving element counts for minus the balance of the node that it drives. -/
private theorem signed_driven {net : Network α} {e : Element α} {w : Nat} (h : e.Fits net w)
    (hd : e.kind.drives = true) (c : Nat) :
    e.signed e.driven (net.fluxAt e c) = -net.balanceAt e.driven c := by
  unfold Element.signed fluxAt fluxOf
  rw [if_pos hd]
  by_cases ho : e.drivesOutput = true
  · rw [if_pos ho, if_pos (by simp [Element.driven, ho])]
  · rw [if_neg ho, if_neg (by simpa [Element.driven, ho] using h.ends_ne)]

/-- **At a driven node the driving element makes up the balance.** -/
theorem sum_touches_driven [Scalar.Exact α] {net : Network α} (hwf : net.WellFormed)
    (hord : net.Orderly) {e : Element α} (he : e ∈ net.drivers) (hres : net.Resolves e.driven)
    (c : Nat) : Scalar.sum ((net.elements.toList.filter fun f => decide (f.Touches e.driven)).map
      fun f => f.signed e.driven (net.fluxAt f c)) = 0 := by
  obtain ⟨⟨k, hk⟩, hd⟩ := mem_drivers.mp he
  obtain ⟨w, hw⟩ := hwf.fits hk
  -- The driving element stands apart from the elements before and after it, which drive others.
  obtain ⟨before, after, hsplit⟩ := List.append_of_mem (List.mem_filter.mp he).1
  have hfits : ∀ f ∈ before ++ after, ∃ w, f.Fits net w := by
    intro f hf
    refine hwf.fits_of_mem f ?_
    rw [hsplit, List.mem_append, List.mem_cons]
    rcases List.mem_append.mp hf with hf | hf
    · exact .inl hf
    · exact .inr (.inr hf)
  have htouches {es : List (Element α)} (hes : es ⊆ before ++ after) :
      es.filter (fun f => decide (f.Touches e.driven)) = entering es e.driven :=
    filter_touches (fun f hf => hfits f (hes hf))
      fun f hf => hord.driven_ne_of_eq_append hsplit hd f (hes hf)
  have hself : e.Touches e.driven := (touches_iff hw).mpr (.inr ⟨hd, rfl⟩)
  have hnot : e.driven ∉ e.endpoints := fun h =>
    ((Element.mem_endpoints hw.ends_ne).mp h).2 hd rfl
  let s (f : Element α) : α := f.signed e.driven (net.fluxAt f c)
  let x : α := ((entering before e.driven).map s).sum
  let y : α := ((entering after e.driven).map s).sum
  have hbalance : net.balanceAt e.driven c = x + y := by
    rw [balanceAt_eq_sum hres, Scalar.Exact.sum_eq_sum, hsplit, entering, List.filter_append,
      List.filter_cons_of_neg (by simpa using hnot), List.map_append, List.sum_append]
    rfl
  calc _ = x + (s e + y) := by
        rw [Scalar.Exact.sum_eq_sum, hsplit, List.filter_append,
          List.filter_cons_of_pos (by simpa using hself),
          htouches (List.subset_append_left _ _), htouches (List.subset_append_right _ _),
          List.map_append, List.map_cons, List.sum_append, List.sum_cons]
    _ = x + (-(x + y) + y) := by
        rw [show s e = -net.balanceAt e.driven c from signed_driven hw hd c, hbalance]
    _ = 0 := by ring

variable [Scalar.Exact α]

/-! ### Summation over nodes and over elements -/

/-- What a flux counts for at a node, if it touches the node at all. -/
theorem mul_signed_eq {e : Element α} (hne : e.input ≠ e.output) (W : Nat → α) (f : α) (i : Nat) :
    (if e.Touches i then W i * e.signed i f else 0) =
      (if i = e.output then W e.output * f else 0) - if i = e.input then W e.input * f else 0 := by
  unfold Element.signed
  by_cases hout : i = e.output
  · subst hout
    have ht : e.Touches e.output := .inr rfl
    rw [if_pos ht, if_pos rfl, if_pos rfl, if_neg hne.symm, sub_zero]
  · by_cases hin : i = e.input
    · subst hin
      have ht : e.Touches e.input := .inl rfl
      rw [if_pos ht, if_neg hout, if_neg hout, if_pos rfl, zero_sub, mul_neg]
    · have ht : ¬e.Touches i := not_or.mpr ⟨hin, hout⟩
      rw [if_neg ht, if_neg hout, if_neg hin, sub_zero]

/-- **Summation by parts**: summed over the nodes, a potential times what fluxes count for is the
rise of the potential across the elements times their fluxes. -/
theorem sum_mul_signed {n : Nat} (W : Nat → α) (f : Element α → α) :
    ∀ {es : List (Element α)},
      (∀ e ∈ es, e.input < n ∧ e.output < n ∧ e.input ≠ e.output) →
      ∑ i ∈ Finset.range n, W i *
          ((es.filter fun e => decide (e.Touches i)).map fun e => e.signed i (f e)).sum =
        (es.map fun e => (W e.output - W e.input) * f e).sum
  | [], _ => by simp
  | e :: es, h => by
    obtain ⟨⟨hin, hout, hne⟩, hes⟩ := List.forall_mem_cons.mp h
    have hsplit : ∀ i ∈ Finset.range n, W i *
        (((e :: es).filter fun e => decide (e.Touches i)).map fun e => e.signed i (f e)).sum =
          ((if i = e.output then W e.output * f e else 0) -
            if i = e.input then W e.input * f e else 0) +
          W i * ((es.filter fun e => decide (e.Touches i)).map fun e => e.signed i (f e)).sum := by
      intro i _
      rw [← mul_signed_eq hne, List.filter_cons]
      by_cases ht : e.Touches i
      · rw [if_pos (decide_eq_true ht), if_pos ht, List.map_cons, List.sum_cons, mul_add]
      · rw [if_neg (by simpa using ht), if_neg ht, zero_add]
    rw [Finset.sum_congr rfl hsplit, Finset.sum_add_distrib, sum_mul_signed W f hes,
      Finset.sum_sub_distrib, Finset.sum_ite_eq', Finset.sum_ite_eq',
      if_pos (Finset.mem_range.mpr hout), if_pos (Finset.mem_range.mpr hin), List.map_cons,
      List.sum_cons, sub_mul]

/-- The sign with which a flux counts at a node passes through differences. -/
private theorem signed_sub (e : Element α) (i : Nat) (f g : α) :
    e.signed i (f - g) = e.signed i f - e.signed i g := by
  unfold Element.signed
  split
  · rfl
  · ring

/-- Sums of what fluxes count for are subtracted flux by flux. -/
theorem sum_signed_sub (es : List (Element α)) (i : Nat) (f g : Element α → α) :
    (es.map fun e => e.signed i (f e - g e)).sum =
      (es.map fun e => e.signed i (f e)).sum - (es.map fun e => e.signed i (g e)).sum := by
  induction es with
  | nil => simp
  | cons e es ih =>
    rw [List.map_cons, List.map_cons, List.map_cons, List.sum_cons, List.sum_cons, List.sum_cons,
      ih, signed_sub]
    ring

end Network

end FluxBalance
