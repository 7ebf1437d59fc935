import FluxBalance.Proofs.Network.WellFormed
import FluxBalance.Proofs.Scalar.Lawful

/-!
# Fluxes and balances as functions of the potentials

Evaluating a flux or a `discrepancy` marks nodes on its way and may fail. What it computes when it
succeeds is a function of the elements and of the potentials alone: `balanceWithin` adds up, for one
node and one component, what the elements add that enter the balance of the node, where the flux of
a driving element is again a balance. Evaluations leave the network as it was, and the balance does
not depend on how deep the evaluation was allowed to go, as long as it succeeded.

## Main definitions and results

* `balanceAt`, `fluxAt`: balances and fluxes as functions of the potentials;
* `Resolves`: the evaluation of a balance comes to an end;
* `discrepancy_eq_ok`, `flux_eq_ok`: what an evaluation finds are the numbers of these functions;
* `same_balanceWithin`: the same potentials have the same balances.
-/

namespace FluxBalance

open FluxBalance.Computation

variable {α : Type} [Scalar α]

namespace Element

/-- The flux of an element that does not drive, in one component, at given potentials. -/
def passive (e : Element α) (V : Nat → Nat → α) (c : Nat) : α :=
  match e.kind with
  | .conductive =>
    Scalar.sum ((List.range e.gain.cols).map fun k =>
      e.gain.entry c k * (V e.input k - V e.output k))
  | .constantFlux => e.gain.entry c 0
  | .orifice => Network.orificeFlux (e.gain.entry c 0) (V e.input c - V e.output c)
  | .potentialDrive => 0

/-- What a flux of the element counts for at a node: it flows in at the output. -/
def signed (e : Element α) (i : Nat) (f : α) : α := if i = e.output then f else -f

end Element

namespace Network

/-- The elements that enter the balance of a node, in order. -/
def entering (es : List (Element α)) (i : Nat) : List (Element α) :=
  es.filter fun e => decide (i ∈ e.endpoints)

/-- The flux of an element in one component, given the balances of nodes. -/
def fluxOf (balance : Nat → Nat → α) (V : Nat → Nat → α) (e : Element α) (c : Nat) : α :=
  if e.kind.drives then
    if e.drivesOutput then -balance e.driven c else balance e.driven c
  else e.passive V c

/-- The balance of a node in one component, at given potentials, as far as at most `d` driving
elements follow one another. -/
def balanceWithin (es : List (Element α)) (V : Nat → Nat → α) : Nat → Nat → Nat → α
  | 0, _, _ => 0
  | d + 1, i, c =>
    Scalar.sum ((entering es i).map fun e => e.signed i (fluxOf (balanceWithin es V d) V e c))

/-- Fewer than `d` driving elements follow one another from the node on. -/
def ResolvesWithin (es : List (Element α)) : Nat → Nat → Prop
  | 0, _ => False
  | d + 1, i => ∀ e ∈ entering es i, e.kind.drives = true → ResolvesWithin es d e.driven

/-! ### Depth -/

/-- Where a depth suffices, one more gives the same balance. -/
private theorem balanceWithin_succ {es : List (Element α)} {V : Nat → Nat → α} :
    ∀ {d i : Nat}, ResolvesWithin es d i → ∀ c,
      balanceWithin es V (d + 1) i c = balanceWithin es V d i c
  | d + 1, i, h, c => by
    rw [balanceWithin, balanceWithin]
    congr 1
    refine List.map_congr_left fun e he => ?_
    unfold fluxOf
    by_cases hd : e.kind.drives = true
    · rw [if_pos hd, if_pos hd, balanceWithin_succ (h e he hd) c]
    · rw [if_neg hd, if_neg hd]

/-! ### The same potentials -/

section

variable [Scalar.Lawful α] {V V' : Nat → Nat → α}

/-- The sign with which a flux counts at a node keeps numbers the same. -/
private theorem same_signed (e : Element α) (i : Nat) {f f' : α} (h : Scalar.Same f f') :
    Scalar.Same (e.signed i f) (e.signed i f') := by
  unfold Element.signed
  split
  · exact h
  · exact Scalar.Lawful.neg_same h

/-- The `passive` flux of an element is the same at the same potentials. -/
private theorem same_passive (h : ∀ i c, Scalar.Same (V i c) (V' i c)) (e : Element α) (c : Nat) :
    Scalar.Same (e.passive V c) (e.passive V' c) := by
  have hdrop (k : Nat) : Scalar.Same (V e.input k - V e.output k) (V' e.input k - V' e.output k) :=
    Scalar.Lawful.sub_same (h e.input k) (h e.output k)
  unfold Element.passive
  split
  · exact Scalar.Same.sum_map fun k _ => Scalar.Lawful.mul_same (.refl _) (hdrop k)
  · exact .refl _
  · exact Scalar.Lawful.mul_same
      (Scalar.Lawful.mul_same (.refl _) (hdrop c).sign) (Scalar.Lawful.sqrt_same (hdrop c).abs)
  · exact .refl _

/-- **The same potentials have the same balances.** -/
theorem same_balanceWithin {es : List (Element α)} (h : ∀ i c, Scalar.Same (V i c) (V' i c)) :
    ∀ d i c, Scalar.Same (balanceWithin es V d i c) (balanceWithin es V' d i c)
  | 0, _, _ => .refl _
  | d + 1, i, c => by
    refine Scalar.Same.sum_map fun e _ => same_signed e i ?_
    unfold fluxOf
    split
    · split
      · exact Scalar.Lawful.neg_same (same_balanceWithin h d e.driven c)
      · exact same_balanceWithin h d e.driven c
    · exact same_passive h e c

end

/-! ### Evaluations leave the network alone -/

omit [Scalar α] in
private theorem leaves_withMark {β : Type} {body : NetworkAction α β} (h : Leaves body) (i : Nat) :
    Leaves (withMark i body) := by
  intro net
  unfold withMark
  split
  · rfl
  · have hbody := h { net with resolving := i :: net.resolving }
    cases hr : body { net with resolving := i :: net.resolving } with
    | ok b net' =>
      rw [hr] at hbody
      cases hbody
      simp [finalState]
    | error e net' =>
      rw [hr] at hbody
      cases hbody
      simp [finalState]

/-- Evaluating a flux by `fluxBy` leaves the network alone if the discrepancies do. -/
theorem leaves_fluxBy {discrepancy : Nat → NetworkAction α (DenseMatrix α)}
    (h : ∀ i, Leaves (discrepancy i)) (e : Element α) : Leaves (fluxBy discrepancy e) := by
  unfold fluxBy
  split
  · exact .bind (leaves_withMark (h _) _) fun _ => .pure _
  · exact leaves_look _

private theorem leaves_sumContributions {discrepancy : Nat → NetworkAction α (DenseMatrix α)}
    (h : ∀ i, Leaves (discrepancy i)) (i : Nat) :
    ∀ ks total, Leaves (sumContributions discrepancy i ks total)
  | [], _ => .pure _
  | _ :: ks, _ =>
    .bind (leaves_look _) fun e => .bind (.bind (leaves_fluxBy h e) fun _ => .pure _) fun _ =>
      .bind (leaves_look _) fun total => leaves_sumContributions h i ks total

/-- Evaluating a discrepancy leaves the network alone, by induction on the depth. -/
theorem leaves_discrepancyWithin : ∀ d i, Leaves (discrepancyWithin (α := α) d i)
  | 0, _ => .throw _
  | d + 1, i => .bind (leaves_look _) fun _ =>
      leaves_sumContributions (leaves_discrepancyWithin d) i _ _

/-- Evaluating a `flux` changes nothing. -/
theorem leaves_flux (e : Element α) : Leaves (flux e) := fun net =>
  leaves_fluxBy (leaves_discrepancyWithin _) e net

/-- Evaluating a `discrepancy` changes nothing. -/
theorem leaves_discrepancy (index : Int) : Leaves (discrepancy (α := α) index) :=
  .bind (leaves_look _) fun _ net => leaves_discrepancyWithin _ _ net

/-! ### What evaluations compute -/

/-- The matrix is a column of the given height with the given entries. -/
structure Tabulates (A : DenseMatrix α) (w : Nat) (f : Nat → α) : Prop where
  rows : A.rows = w
  cols : A.cols = 1
  entry : ∀ c < w, A.entry c 0 = f c

/-- The opposite of a column `Tabulates` the opposite numbers. -/
theorem Tabulates.neg {A : DenseMatrix α} {w : Nat} {f : Nat → α} (h : Tabulates A w f) :
    Tabulates A.neg w fun c => -f c where
  rows := h.rows
  cols := h.cols
  entry c hc := by
    rw [DenseMatrix.entry_neg (by rw [h.rows]; exact hc) (by rw [h.cols]; exact Nat.one_pos),
      h.entry c hc]

theorem Tabulates.add {A B C : DenseMatrix α} {w w' : Nat} {f g : Nat → α}
    (hA : Tabulates A w f) (hB : Tabulates B w' g) (h : A.add B = .ok C) :
    Tabulates C w fun c => f c + g c := by
  obtain ⟨hshape, rfl⟩ := DenseMatrix.add_eq_ok_iff.mp h
  obtain rfl : w = w' := hA.rows.symm.trans ((congrArg Prod.fst hshape).trans hB.rows)
  refine ⟨hA.rows, hA.cols, fun c hc => ?_⟩
  rw [DenseMatrix.entry_plus (by rw [hA.rows]; exact hc) (by rw [hA.cols]; exact Nat.one_pos),
    hA.entry c hc, hB.entry c hc]

private theorem tabulates_zeros (w : Nat) : Tabulates (.zeros w 1 : DenseMatrix α) w fun _ => 0 :=
  ⟨rfl, rfl, fun _ _ => DenseMatrix.entry_zeros⟩

section

variable {net net' : Network α}

/-- The drop across an element is the difference of the potentials at its ends. -/
theorem tabulates_dropAcross (hwf : net.WellFormed) {e : Element α} {w : Nat}
    (hfits : e.Fits net w) {drop : DenseMatrix α} (h : net.dropAcross e = .ok drop) :
    Tabulates drop w fun c => net.potentialAt e.input c - net.potentialAt e.output c := by
  unfold dropAcross at h
  obtain ⟨p, hp, h⟩ := except_bind_eq_ok.mp h
  obtain ⟨q, hq, h⟩ := except_bind_eq_ok.mp h
  obtain ⟨n, hn, -, rfl⟩ := potential_eq_ok_iff.mp hp
  obtain ⟨m, hm, -, rfl⟩ := potential_eq_ok_iff.mp hq
  obtain ⟨-, rfl⟩ := DenseMatrix.sub_eq_ok_iff.mp (fitting_eq_ok_iff.mp h)
  obtain ⟨n', hn', hrows⟩ := width?_eq_some.mp hfits.input
  rw [hn] at hn'
  cases hn'
  have hcols := hwf.column hn
  refine ⟨hrows, hcols, fun c hc => ?_⟩
  rw [potentialAt_eq hn, potentialAt_eq hm]
  exact DenseMatrix.entry_minus (by omega) (by omega)

/-- The flux of an element that does not drive is its `passive` flux. -/
private theorem tabulates_passiveFlux (hwf : net.WellFormed) {e : Element α} {w : Nat}
    (hfits : e.Fits net w) {f : DenseMatrix α} (h : net.passiveFlux e = .ok f) :
    Tabulates f w (e.passive net.potentialAt) := by
  have hgain := hfits.gain
  unfold passiveFlux at h
  cases hk : e.kind <;> rw [hk] at h hgain
  case conductive =>
    obtain ⟨drop, hdrop, h⟩ := except_bind_eq_ok.mp h
    have ht := tabulates_dropAcross hwf hfits hdrop
    obtain ⟨-, rfl⟩ := DenseMatrix.product_eq_ok_iff.mp (fitting_eq_ok_iff.mp h)
    have hrows : e.gain.rows = w := congrArg Prod.fst hgain
    have hcols : e.gain.cols = w := congrArg Prod.snd hgain
    refine ⟨hrows, ht.cols, fun c hc => ?_⟩
    rw [DenseMatrix.entry_times _ _ (by omega) (by rw [ht.cols]; exact Nat.one_pos),
      Element.passive, hk]
    -- The sum runs over the width of the gain, which is the height of the drop.
    refine congrArg Scalar.sum (List.map_congr_left fun k hk => ?_)
    rw [ht.entry k (by rw [← hcols]; exact List.mem_range.mp hk)]
  case constantFlux =>
    cases h
    refine ⟨congrArg Prod.fst hgain, congrArg Prod.snd hgain, fun c _ => ?_⟩
    rw [Element.passive, hk]
  case orifice =>
    obtain ⟨drop, hdrop, h⟩ := except_bind_eq_ok.mp h
    have ht := tabulates_dropAcross hwf hfits hdrop
    cases h
    refine ⟨ht.rows, rfl, fun c hc => ?_⟩
    rw [orificeFluxes, DenseMatrix.entry_ofFn _ (by rw [ht.rows]; exact hc) Nat.one_pos,
      ht.entry c hc, Element.passive, hk]
  case potentialDrive =>
    cases h
    refine ⟨congrArg Prod.fst hgain, rfl, fun c _ => ?_⟩
    rw [DenseMatrix.entry_zeros, Element.passive, hk]

/-- What is computed where at most `d` driving elements follow one another. -/
def Computes (d : Nat) (net : Network α) (i : Nat) (v : DenseMatrix α) : Prop :=
  ∃ w, net.width? i = some w ∧
    Tabulates v w (balanceWithin net.elements.toList net.potentialAt d i) ∧
    ResolvesWithin net.elements.toList d i

/-- All evaluations with a bounded depth compute balances. -/
def EvaluationsCompute (α : Type) [Scalar α] (d : Nat) : Prop :=
  ∀ (net net' : Network α) (i : Nat) (v : DenseMatrix α), net.WellFormed →
    discrepancyWithin d i net = .ok v net' → Computes d net i v

omit [Scalar α] in
/-- What succeeds under a mark succeeds with a mark that was not there, and takes it away. -/
private theorem withMark_eq_ok {β : Type} {i : Nat} {body : NetworkAction α β} {b : β}
    (h : withMark i body net = .ok b net') :
    ∃ net₁, body { net with resolving := i :: net.resolving } = .ok b net₁ := by
  unfold withMark at h
  split at h
  · cases h
  · cases hr : body { net with resolving := i :: net.resolving } with
    | ok b' net₁ =>
      rw [hr] at h
      cases h
      exact ⟨net₁, rfl⟩
    | error e net₁ =>
      rw [hr] at h
      cases h

/-- The flux of an element is `fluxOf` the balances of the nodes that it drives, as far as they
resolve. -/
theorem tabulates_fluxBy {d : Nat} (hd : EvaluationsCompute α d) (hwf : net.WellFormed)
    {e : Element α} {w : Nat} (hfits : e.Fits net w) {f : DenseMatrix α}
    (h : fluxBy (discrepancyWithin d) e net = .ok f net') :
    Tabulates f w
        (fluxOf (balanceWithin net.elements.toList net.potentialAt d) net.potentialAt e) ∧
      (e.kind.drives = true → ResolvesWithin net.elements.toList d e.driven) := by
  unfold fluxBy at h
  by_cases hdrives : e.kind.drives = true
  · rw [if_pos hdrives] at h
    obtain ⟨v, net₁, hv, h⟩ := bind_eq_ok.mp h
    obtain ⟨rfl, rfl⟩ := pure_eq_ok.mp h
    obtain ⟨net₂, hv⟩ := withMark_eq_ok hv
    -- The marks do not matter for what is computed.
    obtain ⟨w', hw', htab, hres⟩ := hd _ _ _ _ (hwf.mark _) hv
    obtain rfl : w = w' := Option.some.inj (hfits.driven.symm.trans hw')
    refine ⟨?_, fun _ => hres⟩
    by_cases ho : e.drivesOutput = true
    · rw [if_pos ho]
      refine ⟨htab.neg.rows, htab.neg.cols, fun c hc => ?_⟩
      rw [htab.neg.entry c hc, fluxOf, if_pos hdrives, if_pos ho]
      rfl
    · rw [if_neg ho]
      refine ⟨htab.rows, htab.cols, fun c hc => ?_⟩
      rw [htab.entry c hc, fluxOf, if_pos hdrives, if_neg ho]
      rfl
  · rw [if_neg hdrives] at h
    obtain ⟨hf, rfl⟩ := look_eq_ok_iff.mp h
    have htab := tabulates_passiveFlux hwf hfits hf
    refine ⟨⟨htab.rows, htab.cols, fun c hc => ?_⟩, fun hyes => absurd hyes hdrives⟩
    rw [htab.entry c hc, fluxOf, if_neg hdrives]

/-- The sum over elements adds what each of them counts for. -/
private theorem tabulates_sumContributions {d : Nat} (hd : EvaluationsCompute α d)
    (hwf : net.WellFormed) {i w : Nat} :
    ∀ {ps : List (Element α × Nat)} {total v : DenseMatrix α} {t : Nat → α},
      (∀ p ∈ ps, net.elements[p.2]? = some p.1) → Tabulates total w t →
      sumContributions (discrepancyWithin d) i (ps.map Prod.snd) total net = .ok v net' →
      Tabulates v w (fun c => ((ps.map Prod.fst).map fun e => e.signed i
        (fluxOf (balanceWithin net.elements.toList net.potentialAt d) net.potentialAt e c)).foldl
          (· + ·) (t c)) ∧
        ∀ e ∈ ps.map Prod.fst, e.kind.drives = true →
          ResolvesWithin net.elements.toList d e.driven
  | [], total, v, t, _, htotal, h => by
    obtain ⟨rfl, -⟩ := pure_eq_ok.mp h
    exact ⟨htotal, by simp⟩
  | (e, k) :: ps, total, v, t, hps, htotal, h => by
    have he : net.elements[k]? = some e := hps (e, k) List.mem_cons_self
    rw [List.map_cons, sumContributions] at h
    obtain ⟨e', net₁, hlook, h⟩ := bind_eq_ok.mp h
    obtain ⟨he', rfl⟩ := look_eq_ok_iff.mp hlook
    rw [element, he] at he'
    cases he'
    obtain ⟨c, net₁, hc, h⟩ := bind_eq_ok.mp h
    obtain ⟨f, net₂, hf, hc⟩ := bind_eq_ok.mp hc
    obtain ⟨rfl, rfl⟩ := pure_eq_ok.mp hc
    obtain ⟨total', net₃, hlook, h⟩ := bind_eq_ok.mp h
    obtain ⟨hadd, rfl⟩ := look_eq_ok_iff.mp hlook
    rw [(leaves_fluxBy (leaves_discrepancyWithin d) e).of_ok hf] at h
    obtain ⟨w', hfits⟩ := hwf.fits he
    obtain ⟨hflux, hresolves⟩ := tabulates_fluxBy hd hwf hfits hf
    -- The flux enters the node at the output and leaves it at the input.
    have hsigned : Tabulates (if i = e.output then f else f.neg) w' fun c => e.signed i
        (fluxOf (balanceWithin net.elements.toList net.potentialAt d) net.potentialAt e c) := by
      unfold Element.signed
      split
      · exact hflux
      · exact hflux.neg
    have htotal' := htotal.add hsigned (fitting_eq_ok_iff.mp hadd)
    obtain ⟨htab, hall⟩ := tabulates_sumContributions hd hwf
      (fun p hp => hps p (List.mem_cons_of_mem _ hp)) htotal' h
    refine ⟨htab, fun e' he' => ?_⟩
    rcases List.mem_cons.mp he' with rfl | he'
    · exact hresolves
    · exact hall e' he'

omit [Scalar α] in
/-- The registered positions with their elements. -/
private theorem map_fst_registered (i : Nat) :
    (net.elements.toList.zipIdx.filter fun p => decide (i ∈ p.1.endpoints)).map Prod.fst
      = entering net.elements.toList i := by
  calc _ = (net.elements.toList.zipIdx.map Prod.fst).filter fun e => decide (i ∈ e.endpoints) :=
        List.filter_map.symm
    _ = _ := by rw [List.zipIdx_map_fst, entering]

/-- By induction on the depth: every discrepancy that evaluation finds is the balance of the
node. -/
theorem evaluationsCompute : ∀ d, EvaluationsCompute α d
  | 0, _, _, _, _, _, h => by cases h
  | d + 1, net, net', i, v, hwf, h => by
    unfold discrepancyWithin at h
    obtain ⟨n, net₁, hlook, h⟩ := bind_eq_ok.mp h
    obtain ⟨hn, rfl⟩ := look_eq_ok_iff.mp hlook
    rw [node_natCast_eq_ok_iff] at hn
    rw [hwf.registered hn, registeredAt] at h
    have hps : ∀ p ∈ net.elements.toList.zipIdx.filter fun p => decide (i ∈ p.1.endpoints),
        net.elements[p.2]? = some p.1 := by
      intro p hp
      simpa [List.mem_zipIdx_iff_getElem?] using (List.mem_filter.mp hp).1
    -- The registered elements are those that enter the balance, in the same order.
    obtain ⟨htab, hall⟩ := tabulates_sumContributions (evaluationsCompute d) hwf hps
      (tabulates_zeros n.components) h
    rw [map_fst_registered] at htab hall
    exact ⟨n.components, by rw [width?, hn]; rfl, htab, hall⟩

end

/-! ### Fluxes and balances of a network -/

section

variable (net : Network α)

/-- The balance of a node in one component. -/
def balanceAt (i c : Nat) : α :=
  balanceWithin net.elements.toList net.potentialAt (net.nodes.size + 1) i c

/-- The flux of an element in one component. -/
def fluxAt (e : Element α) (c : Nat) : α := fluxOf net.balanceAt net.potentialAt e c

/-- The balance of the node can be evaluated. -/
def Resolves (i : Nat) : Prop := ResolvesWithin net.elements.toList (net.nodes.size + 1) i

variable {net}

/-- The balance of a node adds up the fluxes of the elements that enter it. -/
theorem balanceAt_eq_sum {i : Nat} (h : net.Resolves i) (c : Nat) :
    net.balanceAt i c =
      Scalar.sum ((entering net.elements.toList i).map fun e => e.signed i (net.fluxAt e c)) := by
  rw [balanceAt, balanceWithin]
  refine congrArg Scalar.sum (List.map_congr_left fun e he => ?_)
  unfold fluxAt fluxOf
  by_cases hd : e.kind.drives = true
  · have hdepth : balanceWithin net.elements.toList net.potentialAt net.nodes.size e.driven c
        = net.balanceAt e.driven c := (balanceWithin_succ (h e he hd) c).symm
    rw [if_pos hd, if_pos hd, hdepth]
  · rw [if_neg hd, if_neg hd]

variable {net' : Network α}

/-- A `discrepancy` that is found is the balance of the node, and the network stays as it is. -/
theorem discrepancy_eq_ok (hwf : net.WellFormed) {index : Int} {v : DenseMatrix α}
    (h : discrepancy index net = .ok v net') :
    ∃ i w : Nat, index = i ∧ net' = net ∧ net.width? i = some w ∧
      Tabulates v w (net.balanceAt i) ∧ net.Resolves i := by
  have hsame := (leaves_discrepancy index).of_ok h
  unfold discrepancy at h
  obtain ⟨n, net₁, hlook, h⟩ := bind_eq_ok.mp h
  obtain ⟨hn, rfl⟩ := look_eq_ok_iff.mp hlook
  obtain ⟨i, rfl, -⟩ := node_eq_ok_iff.mp hn
  rw [discrepancyAt, Int.toNat_natCast] at h
  obtain ⟨w, hw, htab, hres⟩ := evaluationsCompute _ _ _ _ _ hwf h
  exact ⟨i, w, rfl, hsame, hw, htab, hres⟩

/-- The `discrepancy` of a node `Tabulates` its balance. -/
theorem tabulates_of_discrepancy (hwf : net.WellFormed) {i w : Nat} (hw : net.width? i = some w)
    {v : DenseMatrix α} (h : discrepancy i net = .ok v net') :
    Tabulates v w (net.balanceAt i) := by
  obtain ⟨k, w', hk, -, hw', htab, -⟩ := discrepancy_eq_ok hwf h
  obtain rfl : i = k := by omega
  rw [hw] at hw'
  cases hw'
  exact htab

/-- A `flux` that is found is `fluxAt` the element, and the network stays as it is. -/
theorem flux_eq_ok (hwf : net.WellFormed) {e : Element α} {w : Nat} (hfits : e.Fits net w)
    {f : DenseMatrix α} (h : flux e net = .ok f net') :
    net' = net ∧ Tabulates f w (net.fluxAt e) ∧
      (e.kind.drives = true → net.Resolves e.driven) := by
  have hsame := (leaves_flux e).of_ok h
  obtain ⟨htab, hres⟩ := tabulates_fluxBy (evaluationsCompute _) hwf hfits h
  exact ⟨hsame, htab, hres⟩

/-! ### Networks with the same potentials -/

variable [Scalar.Lawful α] {a b : Network α}

/-- The same potentials have the same balances, in networks of one `frame`. -/
theorem same_balanceAt (hframe : a.frame = b.frame)
    (h : ∀ i c, Scalar.Same (a.potentialAt i c) (b.potentialAt i c)) (i c : Nat) :
    Scalar.Same (a.balanceAt i c) (b.balanceAt i c) := by
  rw [balanceAt, balanceAt, elements_of_frame_eq hframe, size_of_frame_eq hframe]
  exact same_balanceWithin h _ i c

/-- The same potentials have the same fluxes, in networks of one `frame`. -/
theorem same_fluxAt (hframe : a.frame = b.frame)
    (h : ∀ i c, Scalar.Same (a.potentialAt i c) (b.potentialAt i c)) (e : Element α) (c : Nat) :
    Scalar.Same (a.fluxAt e c) (b.fluxAt e c) := by
  unfold fluxAt fluxOf
  split
  · split
    · exact Scalar.Lawful.neg_same (same_balanceAt hframe h e.driven c)
    · exact same_balanceAt hframe h e.driven c
  · exact same_passive h e c

end

end Network

end FluxBalance
