import FluxBalance.Proofs.Network.Loops

/-!
# How the evaluation of a flux ends

While nobody writes to a node, the fluxes of elements that do not drive have values. Evaluating the
flux of a driving element goes from dominant to driven nodes and marks each of them on its way. So
it can end in two ways only: with a value, or at a node that is marked already, and this node is on
a loop. It always ends by itself, since no node is marked twice: what would happen at a depth that
is greater than the number of nodes does not matter.

## Main definitions and results

* `Ends`, `ends_discrepancyWithin`: how the evaluation of a balance ends;
* `flux_cases`: how the evaluation of a flux ends;
* `discrepancyFrom`, `discrepancyFrom_eq`: what would happen at a depth that is too great does not
  matter.
-/

namespace FluxBalance.Network

open FluxBalance.Computation Relation

variable {α : Type} [Scalar α] {net net' : Network α} {i : Nat} {e : Element α}

/-! ### Elements that do not drive -/

omit [Scalar α] in
/-- Nobody writes to a node at present. -/
def Readable (net : Network α) : Prop :=
  ∀ {i : Nat} {n : Node α}, net.nodes[i]? = some n → n.access ≠ .exclusive

omit [Scalar α] in
/-- An `Orderly` network is `Readable`, as its nodes are free. -/
theorem Orderly.readable (h : net.Orderly) : net.Readable := fun hn => by
  rw [h.free hn]
  exact nofun

/-- The drop across an element that fits is found in a `Readable` network. -/
private theorem exists_dropAcross (hwf : net.WellFormed) (hread : net.Readable) {w : Nat}
    (hfits : e.Fits net w) : ∃ drop, net.dropAcross e = .ok drop := by
  obtain ⟨n, hn, hnrows⟩ := width?_eq_some.mp hfits.input
  obtain ⟨m, hm, hmrows⟩ := width?_eq_some.mp hfits.output
  have hbefore : net.potential e.input = .ok n.potential :=
    potential_eq_ok_iff.mpr ⟨n, hn, hread hn, rfl⟩
  have hafter : net.potential e.output = .ok m.potential :=
    potential_eq_ok_iff.mpr ⟨m, hm, hread hm, rfl⟩
  have hshape : n.potential.shape = m.potential.shape := by
    rw [DenseMatrix.shape, DenseMatrix.shape, hnrows, hmrows, hwf.column hn, hwf.column hm]
  refine ⟨n.potential.minus m.potential, except_bind_eq_ok.mpr ⟨_, hbefore, ?_⟩⟩
  refine except_bind_eq_ok.mpr ⟨_, hafter, ?_⟩
  exact fitting_eq_ok_iff.mpr (DenseMatrix.sub_eq_ok_iff.mpr ⟨hshape, rfl⟩)

/-- The flux of an element that does not drive has a value. -/
theorem exists_passiveFlux (hwf : net.WellFormed) (hread : net.Readable) {w : Nat}
    (hfits : e.Fits net w) : ∃ f, net.passiveFlux e = .ok f := by
  have hgain := hfits.gain
  obtain ⟨drop, hdrop⟩ := exists_dropAcross hwf hread hfits
  unfold passiveFlux
  cases hk : e.kind <;> rw [hk] at hgain
  case conductive =>
    have hcols : e.gain.cols = drop.rows := by
      rw [(tabulates_dropAcross hwf hfits hdrop).rows]
      exact congrArg Prod.snd hgain
    exact ⟨_, except_bind_eq_ok.mpr ⟨drop, hdrop,
      fitting_eq_ok_iff.mpr (DenseMatrix.product_eq_ok_iff.mpr ⟨hcols, rfl⟩)⟩⟩
  case constantFlux => exact ⟨_, rfl⟩
  case orifice => exact ⟨_, except_bind_eq_ok.mpr ⟨drop, hdrop, rfl⟩⟩
  case potentialDrive => exact ⟨_, rfl⟩

/-! ### Marks on the way -/

omit [Scalar α] in
/-- Without marks, there is nothing on the way. -/
private theorem wayTo_of_resolving_eq_nil (h : net.resolving = []) (i : Nat) :
    net.WayTo net.resolving i := by
  rw [h]
  exact ⟨List.nodup_nil, nofun, nofun⟩

omit [Scalar α] in
/-- The way goes on to a driven node that is marked. -/
theorem WayTo.mark (hwf : net.WellFormed) (he : e ∈ net.drivers)
    (h : net.WayTo net.resolving e.dominant) (hnew : e.driven ∉ net.resolving) :
    WayTo { net with resolving := e.driven :: net.resolving } (e.driven :: net.resolving)
      e.driven := by
  have hway := h.cons (drives_of_mem he) (driven_lt_size hwf he) hnew
  exact ⟨hway.nodup, hway.lt_size, hway.leads⟩

omit [Scalar α] in
/-- The elements that are registered at a node are there, and they enter its balance. -/
private theorem getElem?_of_registered {p : Element α × Nat}
    (hp : p ∈ net.elements.toList.zipIdx.filter fun p => decide (i ∈ p.1.endpoints)) :
    net.elements[p.2]? = some p.1 ∧ i ∈ p.1.endpoints := by
  obtain ⟨hmem, hi⟩ := List.mem_filter.mp hp
  rw [List.mem_zipIdx_iff_getElem?, Array.getElem?_toList] at hmem
  exact ⟨hmem, by simpa using hi⟩

/-! ### Ends of an evaluation -/

/-- An evaluation that starts at a node ends with a value or at a node on a loop that can be reached
from there. -/
inductive Ends (net : Network α) (i : Nat) :
    EStateM.Result (Error α) (Network α) (DenseMatrix α) → Prop
  | value (v : DenseMatrix α) (net' : Network α) : Ends net i (.ok v net')
  | loop {j : Nat} (net' : Network α) : ReflTransGen net.Drives i j → net.OnLoop j →
    Ends net i (.error (.borrow (.drivenLoop j)) net')

omit [Scalar α] in
/-- What an evaluation may end with at a driven node it may end with at the node that drives it. -/
private theorem Ends.of_drives {j : Nat} {r : EStateM.Result (Error α) (Network α) (DenseMatrix α)}
    (h : net.Ends j r) (hij : net.Drives i j) : net.Ends i r := by
  cases h with
  | value v net' => exact .value v net'
  | loop net' hj hloop => exact .loop net' (.head hij hj) hloop

omit [Scalar α] in
/-- Marks do not matter for what can be reached. -/
private theorem Ends.of_mark {marks : List Nat}
    {r : EStateM.Result (Error α) (Network α) (DenseMatrix α)}
    (h : Ends { net with resolving := marks } i r) : net.Ends i r := by
  cases h with
  | value v net' => exact .value v net'
  | loop net' hj hloop => exact .loop net' hj hloop

/-- What the evaluation of a flux finds at the driven node, once it has been marked. -/
private theorem ends_fluxBy {discrepancy : Nat → NetworkAction α (DenseMatrix α)}
    (he : e ∈ net.drivers) (hway : net.WayTo net.resolving e.dominant)
    (hends : e.driven ∉ net.resolving → net.Ends e.driven
      (discrepancy e.driven { net with resolving := e.driven :: net.resolving })) :
    net.Ends e.driven (fluxBy discrepancy e net) := by
  obtain ⟨-, hd⟩ := mem_drivers.mp he
  have hstep : net.Drives e.dominant e.driven := drives_of_mem he
  rw [fluxBy, if_pos hd, bind_apply, withMark]
  by_cases hmark : e.driven ∈ net.resolving
  · rw [if_pos (List.contains_iff_mem.mpr hmark)]
    exact .loop net .refl (onLoop_of_drives (hway.leads _ hmark) hstep)
  · rw [if_neg (fun h => hmark (List.contains_iff_mem.mp h))]
    have hbody := hends hmark
    cases hr : discrepancy e.driven { net with resolving := e.driven :: net.resolving } with
    | ok v net₁ => exact .value _ _
    | error cause net₁ =>
      rw [hr] at hbody
      cases hbody with
      | loop _ hj hloop => exact .loop _ hj hloop

/-- Adding up what elements contribute ends with a value unless the flux of one of them has none. -/
private theorem ends_sumContributions {d w : Nat} (hwf : net.WellFormed) (hread : net.Readable)
    (hi : net.width? i = some w) :
    ∀ {ps : List (Element α × Nat)} {total : DenseMatrix α}, total.shape = (w, 1) →
      (∀ p ∈ ps, net.elements[p.2]? = some p.1 ∧ i ∈ p.1.endpoints) →
      (∀ p ∈ ps, p.1.kind.drives = true →
        net.Ends p.1.driven (fluxBy (discrepancyWithin d) p.1 net)) →
      net.Ends i (sumContributions (discrepancyWithin d) i (ps.map Prod.snd) total net)
  | [], total, _, _, _ => .value total net
  | (e, k) :: ps, total, htotal, hps, hends => by
    obtain ⟨hk, hie⟩ := hps (e, k) List.mem_cons_self
    obtain ⟨w', hfits⟩ := hwf.fits hk
    obtain rfl : w = w' := by
      have hend : i = e.input ∨ i = e.output := ((Element.mem_endpoints hfits.ends_ne).mp hie).1
      rcases hend with rfl | rfl
      · exact Option.some.inj (hi.symm.trans hfits.input)
      · exact Option.some.inj (hi.symm.trans hfits.output)
    have helement : NetworkAction.look (fun net => net.element k) net = .ok e net :=
      look_eq_ok_iff.mpr ⟨by rw [element, hk], rfl⟩
    rw [List.map_cons, sumContributions, bind_apply, helement]
    dsimp only
    -- The flux of the element decides whether the sum goes on.
    have hflux : net.Ends i (fluxBy (discrepancyWithin d) e net) := by
      by_cases hd : e.kind.drives = true
      · have hdriver : e ∈ net.drivers := mem_drivers.mpr ⟨⟨k, hk⟩, hd⟩
        rw [Element.endpoints, if_pos hd, List.mem_singleton] at hie
        subst hie
        exact (hends (e, k) List.mem_cons_self hd).of_drives (drives_of_mem hdriver)
      · obtain ⟨f, hf⟩ := exists_passiveFlux hwf hread hfits
        rw [fluxBy, if_neg hd, look_eq_ok_iff.mpr ⟨hf, rfl⟩]
        exact .value f net
    rw [contributionBy, bind_apply, bind_apply]
    cases hr : fluxBy (discrepancyWithin d) e net with
    | error cause net₁ =>
      rw [hr] at hflux
      exact hflux
    | ok f net₁ =>
      -- The evaluation has left the network as it was, so the others are evaluated in the same one.
      obtain rfl := ((leaves_fluxBy (leaves_discrepancyWithin d) e).of_ok hr).symm
      obtain ⟨htab, -⟩ := tabulates_fluxBy (evaluationsCompute d) hwf hfits hr
      have hshape : (if i = e.output then f else f.neg).shape = (w, 1) := by
        have hf : f.shape = (w, 1) := by rw [DenseMatrix.shape, htab.rows, htab.cols]
        split
        · exact hf
        · exact hf
      have hadd : NetworkAction.look (fun _ : Network α =>
          fitting (total.add (if i = e.output then f else f.neg))) net = .ok _ net :=
        look_eq_ok_iff.mpr ⟨fitting_eq_ok_iff.mpr
          (DenseMatrix.add_eq_ok_iff.mpr ⟨htotal.trans hshape.symm, rfl⟩), rfl⟩
      dsimp only [pure, EStateM.pure]
      rw [bind_apply, hadd]
      exact ends_sumContributions hwf hread hi htotal
        (fun p hp => hps p (List.mem_cons_of_mem _ hp))
        fun p hp => hends p (List.mem_cons_of_mem _ hp)

/-- **A balance is evaluated to a value, or the evaluation ends at a node on a loop.** The induction
is on the depth, of which enough is left for all nodes that are not marked yet. -/
theorem ends_discrepancyWithin :
    ∀ {d : Nat} {net : Network α} {i : Nat}, net.WellFormed → net.Readable →
      net.WayTo net.resolving i → i < net.nodes.size →
      net.nodes.size < net.resolving.length + d → net.Ends i (discrepancyWithin d i net)
  | 0, net, i, _, _, hway, _, hd => absurd hway.length_le (by omega)
  | d + 1, net, i, hwf, hread, hway, hi, hd => by
    obtain ⟨n, hn⟩ : ∃ n, net.nodes[i]? = some n := ⟨_, Array.getElem?_eq_getElem hi⟩
    have hnode : NetworkAction.look (fun net => net.node i) net = .ok n net :=
      look_eq_ok_iff.mpr ⟨node_natCast_eq_ok_iff.mpr hn, rfl⟩
    rw [discrepancyWithin, bind_apply, hnode]
    dsimp only
    rw [hwf.registered hn, registeredAt]
    refine ends_sumContributions hwf hread (w := n.components) (by rw [width?, hn]; rfl) rfl
      (fun p hp => getElem?_of_registered hp) fun p hp hdrives => ?_
    obtain ⟨hp, hip⟩ := getElem?_of_registered hp
    have hdriver : p.1 ∈ net.drivers := mem_drivers.mpr ⟨⟨p.2, hp⟩, hdrives⟩
    rw [Element.endpoints, if_pos hdrives, List.mem_singleton] at hip
    subst hip
    refine ends_fluxBy hdriver hway fun hnew => ?_
    -- The driven node is marked in addition, so one step less of depth suffices.
    refine .of_mark (ends_discrepancyWithin (d := d) (hwf.mark _) hread
      (hway.mark hwf hdriver hnew) (driven_lt_size hwf hdriver) ?_)
    rw [List.length_cons]
    dsimp only
    omega

/-! ### Fluxes -/

/-- The `flux` of a driving element ends as the evaluation of its driven node does. -/
theorem ends_flux (hwf : net.WellFormed) (hread : net.Readable) (hmarks : net.resolving = [])
    (he : e ∈ net.drivers) : net.Ends e.driven (flux e net) := by
  have hway := wayTo_of_resolving_eq_nil hmarks e.dominant
  refine ends_fluxBy he hway fun hnew => ?_
  refine .of_mark (ends_discrepancyWithin (hwf.mark _) hread (hway.mark hwf he hnew)
    (driven_lt_size hwf he) ?_)
  rw [List.length_cons]
  dsimp only
  omega

/-- **The `flux` of a driving element ends in a failure exactly if a loop can be reached** from the
node that it drives. The failure is a conflict at a node on such a loop. -/
theorem flux_cases (hwf : net.WellFormed) (hread : net.Readable) (hmarks : net.resolving = [])
    (he : e ∈ net.drivers) :
    (¬net.LeadsToLoop e.driven ∧ ∃ f, flux e net = .ok f net) ∨
      (net.LeadsToLoop e.driven ∧ ∃ j, flux e net = .error (.borrow (.drivenLoop j)) net) := by
  obtain ⟨⟨k, hk⟩, hd⟩ := mem_drivers.mp he
  obtain ⟨w, hfits⟩ := hwf.fits hk
  have hends := ends_flux hwf hread hmarks he
  cases hr : flux e net with
  | ok f net' =>
    obtain ⟨rfl, -, hres⟩ := flux_eq_ok hwf hfits hr
    exact .inl ⟨(resolves_iff hwf).mp (hres hd), f, rfl⟩
  | error cause net' =>
    obtain rfl := (leaves_flux e).of_error hr
    rw [hr] at hends
    cases hends with
    | loop _ hj hloop => exact .inr ⟨⟨_, hj, hloop⟩, _, rfl⟩

/-- The `discrepancy` of a node ends with a value or at a node on a loop. -/
theorem ends_discrepancy (hwf : net.WellFormed) (hread : net.Readable)
    (hmarks : net.resolving = []) (hi : i < net.nodes.size) :
    net.Ends i (discrepancy i net) := by
  have hnode : NetworkAction.look (fun net => net.node i) net = .ok net.nodes[i] net :=
    look_eq_ok_iff.mpr ⟨net.node_natCast hi, rfl⟩
  rw [discrepancy, bind_apply, hnode]
  dsimp only
  rw [discrepancyAt, Int.toNat_natCast]
  exact ends_discrepancyWithin hwf hread (wayTo_of_resolving_eq_nil hmarks i) hi (by omega)

/-- The balance of a node from which no loop can be reached has a value. -/
theorem exists_discrepancy (hwf : net.WellFormed) (hread : net.Readable)
    (hmarks : net.resolving = []) (hi : i < net.nodes.size) (hloop : ¬net.LeadsToLoop i) :
    ∃ v, discrepancy i net = .ok v net := by
  have hends := ends_discrepancy hwf hread hmarks hi
  cases hr : discrepancy i net with
  | ok v net' =>
    obtain rfl := (leaves_discrepancy i).of_ok hr
    exact ⟨v, rfl⟩
  | error cause net' =>
    rw [hr] at hends
    cases hends with
    | loop _ hj honloop => exact absurd ⟨_, hj, honloop⟩ hloop

/-! ### Depth -/

/-- The discrepancy of a node, where at most `depth` driving elements follow one another and `stop`
says what would happen after them. -/
def discrepancyFrom (stop : Nat → NetworkAction α (DenseMatrix α)) :
    Nat → Nat → NetworkAction α (DenseMatrix α)
  | 0, index => stop index
  | depth + 1, index => do
    let n ← NetworkAction.look fun net => net.node index
    sumContributions (discrepancyFrom stop depth) index n.elements (.zeros n.components 1)

/-- Evaluating a flux by `fluxBy` looks at the `discrepancy` of the driven node only. -/
private theorem fluxBy_congr {discrepancy discrepancy' : Nat → NetworkAction α (DenseMatrix α)}
    (h : e.kind.drives = true → e.driven ∉ net.resolving →
      discrepancy e.driven { net with resolving := e.driven :: net.resolving } =
        discrepancy' e.driven { net with resolving := e.driven :: net.resolving }) :
    fluxBy discrepancy e net = fluxBy discrepancy' e net := by
  unfold fluxBy
  by_cases hd : e.kind.drives = true
  · rw [if_pos hd, if_pos hd, bind_apply, bind_apply, withMark, withMark]
    by_cases hmark : e.driven ∈ net.resolving
    · rw [if_pos (List.contains_iff_mem.mpr hmark), if_pos (List.contains_iff_mem.mpr hmark)]
    · rw [h hd hmark]
  · rw [if_neg hd, if_neg hd]

private theorem sumContributions_congr
    {discrepancy discrepancy' : Nat → NetworkAction α (DenseMatrix α)}
    (hleaves : ∀ i, Leaves (discrepancy' i)) :
    ∀ {ps : List (Element α × Nat)} {total : DenseMatrix α},
      (∀ p ∈ ps, net.elements[p.2]? = some p.1) →
      (∀ p ∈ ps, fluxBy discrepancy p.1 net = fluxBy discrepancy' p.1 net) →
      sumContributions discrepancy i (ps.map Prod.snd) total net =
        sumContributions discrepancy' i (ps.map Prod.snd) total net
  | [], _, _, _ => rfl
  | (e, k) :: ps, total, hps, hflux => by
    have helement : NetworkAction.look (fun net => net.element k) net = .ok e net :=
      look_eq_ok_iff.mpr ⟨by rw [element, hps (e, k) List.mem_cons_self], rfl⟩
    rw [List.map_cons, sumContributions, sumContributions, bind_apply, bind_apply, helement]
    dsimp only
    rw [contributionBy, contributionBy, bind_apply, bind_apply, bind_apply, bind_apply,
      hflux (e, k) List.mem_cons_self]
    cases hr : fluxBy discrepancy' e net with
    | error cause net₁ => rfl
    | ok f net₁ =>
      obtain rfl := ((leaves_fluxBy hleaves e).of_ok hr).symm
      dsimp only [pure, EStateM.pure]
      rw [bind_apply, bind_apply]
      cases hadd : NetworkAction.look (fun _ : Network α =>
          fitting (total.add (if i = e.output then f else f.neg))) net with
      | error cause net₂ => rfl
      | ok total' net₂ =>
        obtain ⟨-, rfl⟩ := look_eq_ok_iff.mp hadd
        exact sumContributions_congr hleaves (fun p hp => hps p (List.mem_cons_of_mem _ hp))
          fun p hp => hflux p (List.mem_cons_of_mem _ hp)

/-- **Enough depth is enough.** If no mark is missing for it, the depth is never used up, so what
would happen then does not matter. -/
theorem discrepancyFrom_eq {stop : Nat → NetworkAction α (DenseMatrix α)} :
    ∀ {d d' : Nat} {net : Network α} {i : Nat}, net.WellFormed → net.WayTo net.resolving i →
      i < net.nodes.size → net.nodes.size < net.resolving.length + d →
      net.nodes.size < net.resolving.length + d' →
      discrepancyFrom stop d i net = discrepancyWithin d' i net
  | 0, _, net, i, _, hway, _, hd, _ => absurd hway.length_le (by omega)
  | _ + 1, 0, net, i, _, hway, _, _, hd' => absurd hway.length_le (by omega)
  | d + 1, d' + 1, net, i, hwf, hway, hi, hd, hd' => by
    obtain ⟨n, hn⟩ : ∃ n, net.nodes[i]? = some n := ⟨_, Array.getElem?_eq_getElem hi⟩
    have hnode : NetworkAction.look (fun net => net.node i) net = .ok n net :=
      look_eq_ok_iff.mpr ⟨node_natCast_eq_ok_iff.mpr hn, rfl⟩
    rw [discrepancyFrom, discrepancyWithin, bind_apply, bind_apply, hnode]
    dsimp only
    rw [hwf.registered hn, registeredAt]
    refine sumContributions_congr (leaves_discrepancyWithin d')
      (fun p hp => (getElem?_of_registered hp).1) fun p hp => fluxBy_congr fun hdrives hnew => ?_
    obtain ⟨hp, hip⟩ := getElem?_of_registered hp
    have hdriver : p.1 ∈ net.drivers := mem_drivers.mpr ⟨⟨p.2, hp⟩, hdrives⟩
    rw [Element.endpoints, if_pos hdrives, List.mem_singleton] at hip
    subst hip
    refine discrepancyFrom_eq (hwf.mark _) (hway.mark hwf hdriver hnew)
      (driven_lt_size hwf hdriver) ?_ ?_ <;> rw [List.length_cons] <;> dsimp only <;> omega

/-- **Evaluating a `flux` ends by itself**: at most as many driving elements follow one another as
there are nodes. -/
theorem fluxBy_discrepancyFrom (hwf : net.WellFormed) (hmarks : net.resolving = [])
    (he : e ∈ net.drivers) (stop : Nat → NetworkAction α (DenseMatrix α)) {d : Nat}
    (hd : net.nodes.size ≤ d) : fluxBy (discrepancyFrom stop d) e net = flux e net := by
  refine fluxBy_congr fun _ hnew => ?_
  have hway := wayTo_of_resolving_eq_nil hmarks e.dominant
  refine discrepancyFrom_eq (hwf.mark _) (hway.mark hwf he hnew) (driven_lt_size hwf he)
    ?_ ?_ <;> rw [List.length_cons] <;> dsimp only <;> omega

end FluxBalance.Network
