import FluxBalance.Proofs.Newton.Affine
import FluxBalance.Proofs.Study.Dissipation
import FluxBalance.Proofs.Study.Totality

/-!
# The equations of linear networks

Writing values of unknowns and settling makes every potential of a network an affine function of
these values: an unknown is its own value, other potentials that no element drives are constant, and
a driven potential is the dominant one raised or lowered by a constant. If all elements are linear,
the fluxes are affine functions, too, and so are the balances. That these have `IndependentColumns`
of coefficients is the uniqueness of balanced potentials.

## Main definitions and results

* `AffineAt`, `affineAt_balanceAt`: the balances of a `Linear` network are affine in the unknowns;
* `Coefficients`, `Coefficients.independent`: the columns of coefficients are `IndependentColumns`.
-/

namespace FluxBalance.Network

open FluxBalance.Computation

variable {α : Type} [Scalar α] [Scalar.Exact α] {F : Network α} {keys : List ComponentIndex}

/-! ### Affine functions of the unknowns -/

/-- In networks that have been settled at points with the given unknowns, the function is an affine
one of the values. -/
def AffineAt (F : Network α) (keys : List ComponentIndex) (f : Network α → α) : Prop :=
  ∃ (m : Nat → α) (b : α), ∀ {x : Unknowns α} {net : Network α}, x.map Prod.fst = keys →
    SettledAt x F net →
      f net = b + ∑ j ∈ Finset.range keys.length, m j * Newton.coordinate x j

namespace AffineAt

variable {f g : Network α → α}

theorem const (b : α) : AffineAt F keys fun _ => b :=
  ⟨fun _ => 0, b, fun _ _ => by simp only [zero_mul, Finset.sum_const_zero, add_zero]⟩

/-- What agrees with an affine quantity at settled networks is affine. -/
theorem congr (h : AffineAt F keys f) (hfg : ∀ {x : Unknowns α} {net : Network α},
    x.map Prod.fst = keys → SettledAt x F net → g net = f net) : AffineAt F keys g := by
  obtain ⟨m, b, h⟩ := h
  exact ⟨m, b, fun hx hnet => (hfg hx hnet).trans (h hx hnet)⟩

theorem add (hf : AffineAt F keys f) (hg : AffineAt F keys g) :
    AffineAt F keys fun net => f net + g net := by
  obtain ⟨m, b, hf⟩ := hf
  obtain ⟨m', b', hg⟩ := hg
  refine ⟨fun j => m j + m' j, b + b', fun hx hnet => ?_⟩
  simp only [hf hx hnet, hg hx hnet, add_mul, Finset.sum_add_distrib]
  ring

private theorem mul_left (a : α) (hf : AffineAt F keys f) :
    AffineAt F keys fun net => a * f net := by
  obtain ⟨m, b, hf⟩ := hf
  refine ⟨fun j => a * m j, a * b, fun hx hnet => ?_⟩
  simp only [hf hx hnet, mul_add, Finset.mul_sum, mul_assoc]

theorem neg (hf : AffineAt F keys f) : AffineAt F keys fun net => -f net :=
  (hf.mul_left (-1)).congr fun _ _ => (neg_one_mul _).symm

theorem sub (hf : AffineAt F keys f) (hg : AffineAt F keys g) :
    AffineAt F keys fun net => f net - g net :=
  (hf.add hg.neg).congr fun _ _ => sub_eq_add_neg _ _

theorem sum {ι : Type} {f : ι → Network α → α} :
    ∀ {xs : List ι}, (∀ x ∈ xs, AffineAt F keys (f x)) →
      AffineAt F keys fun net => Scalar.sum (xs.map fun x => f x net)
  | [], _ => .const _
  | x :: xs, h => by
    obtain ⟨hx, hxs⟩ := List.forall_mem_cons.mp h
    refine (hx.add (sum hxs)).congr fun _ _ => ?_
    rw [Scalar.Exact.sum_eq_sum, Scalar.Exact.sum_eq_sum, List.map_cons, List.sum_cons]

end AffineAt

/-! ### Potentials -/

omit [Scalar.Exact α] in
/-- An unknown that no element drives has the value that it has been given. -/
private theorem SettledAt.potentialAt_eq_coordinate {x : Unknowns α} {net : Network α}
    (h : SettledAt x F net) (hnodup : (x.map Prod.fst).Nodup) {j i c : Nat}
    (hj : (x.map Prod.fst)[j]? = some ⟨i, c⟩) (hi : ∀ e ∈ F.drivers, e.driven ≠ i) :
    net.potentialAt i c = Newton.coordinate x j := by
  obtain ⟨a, b, hwrite, hframe, hsettle⟩ := h.settled
  rw [List.getElem?_map] at hj
  obtain ⟨⟨u, y⟩, hu, rfl⟩ := Option.map_eq_some_iff.mp hj
  rw [potentialAt_of_settle (drivers_of_frame_eq hframe ▸ hi) hsettle, Newton.coordinate_eq hu]
  exact potentialAt_writeUnknowns_of_mem hnodup (List.mem_of_getElem? hu) hwrite

omit [Scalar α] [Scalar.Exact α] in
private theorem lists_iff {x : Unknowns α} (hx : x.map Prod.fst = keys) :
    Lists x F ↔ ∀ u, u ∈ keys ↔ F.IsUnknown u := by
  unfold Lists
  rw [hx]
  rfl

/-- The potential of a node that no element drives is an unknown, or it does not change. -/
private theorem affineAt_potentialAt_of_undriven (hnodup : keys.Nodup)
    (hkeys : ∀ u, u ∈ keys ↔ F.IsUnknown u) {i : Nat} (hi : ∀ e ∈ F.drivers, e.driven ≠ i)
    (c : Nat) : AffineAt F keys fun net => net.potentialAt i c := by
  by_cases hkey : ⟨i, c⟩ ∈ keys
  · obtain ⟨j, hj⟩ := List.mem_iff_getElem?.mp hkey
    have hlt : j < keys.length := (List.getElem?_eq_some_iff.mp hj).1
    refine ⟨fun k => if k = j then 1 else 0, 0, fun {x net} hx hnet => ?_⟩
    dsimp only
    rw [hnet.potentialAt_eq_coordinate (hx ▸ hnodup) (hx ▸ hj) hi]
    simp only [ite_mul, one_mul, zero_mul, Finset.sum_ite_eq', Finset.mem_range, hlt, if_true,
      zero_add]
  · refine (AffineAt.const (F.potentialAt i c)).congr fun hx hnet => ?_
    exact hnet.potentialAt_of_not_mem ((lists_iff hx).mpr hkeys) hi (hx ▸ hkey)

/-- A driven node follows the `dominant` one. -/
private theorem affineAt_potentialAt_of_driven (hF : F.Clear) (hord : F.Orderly) {e : Element α}
    (he : e ∈ F.drivers) (hdominant : ∀ c, AffineAt F keys fun net => net.potentialAt e.dominant c)
    (c : Nat) : AffineAt F keys fun net => net.potentialAt e.driven c := by
  obtain ⟨⟨k, hk⟩, hd⟩ := mem_drivers.mp he
  obtain ⟨w, hfits⟩ := hF.wellFormed.fits hk
  by_cases hc : c < e.gain.rows
  · have hholds {x : Unknowns α} {net : Network α} (hnet : SettledAt x F net) :
        net.potentialAt e.driven c = e.impose c (net.potentialAt e.dominant c) :=
      Scalar.Exact.same_iff.mp (hnet.holds hF.wellFormed hord
        (rootedWithin_of_not_hasLoop hF.wellFormed hF.acyclic) e
        (drivers_of_frame_eq hnet.differs.frame ▸ he) c hc)
    unfold Element.impose at hholds
    by_cases ho : e.drivesOutput = true
    · refine ((hdominant c).add (.const (e.gain.entry c 0))).congr fun _ hnet => ?_
      rw [hholds hnet, if_pos ho]
    · refine ((hdominant c).sub (.const (e.gain.entry c 0))).congr fun _ hnet => ?_
      rw [hholds hnet, if_neg ho]
  · refine (AffineAt.const 0).congr fun _ hnet => ?_
    have hfits' : e.Fits _ w := fits_of_frame_eq hnet.differs.frame.symm hfits
    exact potentialAt_outside hfits'.driven ((hfits.gain_of_drives hd).1 ▸ hc)

/-- The potential of a node is an affine function of the unknowns. The induction is on the number of
driving elements that lead to the node. -/
private theorem affineAt_potentialAt (hF : F.Clear) (hord : F.Orderly) (hnodup : keys.Nodup)
    (hkeys : ∀ u, u ∈ keys ↔ F.IsUnknown u) {d i : Nat} (hi : F.RootedWithin d i) (c : Nat) :
    AffineAt F keys fun net => net.potentialAt i c := by
  induction d generalizing i c with
  | zero => exact affineAt_potentialAt_of_undriven hnodup hkeys hi c
  | succ d ih =>
    by_cases hdriven : ∀ e ∈ F.drivers, e.driven ≠ i
    · exact affineAt_potentialAt_of_undriven hnodup hkeys hdriven c
    · simp only [not_forall, not_not] at hdriven
      obtain ⟨e, he, rfl⟩ := hdriven
      exact affineAt_potentialAt_of_driven hF hord he (fun c => ih (hi e he rfl) c) c

/-! ### Balances -/

section

variable (hpotential : ∀ i c, AffineAt F keys fun net => net.potentialAt i c)

include hpotential

/-- The `passive` flux of every element but an orifice is affine. -/
private theorem affineAt_passive {e : Element α} (he : e.kind ≠ .orifice) (c : Nat) :
    AffineAt F keys fun net => e.passive net.potentialAt c := by
  unfold Element.passive
  cases hk : e.kind with
  | conductive =>
    exact .sum fun k _ => ((hpotential e.input k).sub (hpotential e.output k)).mul_left _
  | constantFlux => exact .const _
  | orifice => exact absurd hk he
  | potentialDrive => exact .const _

/-- The balances of a network without orifices are affine functions of the unknowns. -/
private theorem affineAt_balanceWithin (hF : ∀ e ∈ F.elements.toList, e.kind ≠ .orifice) :
    ∀ d i c, AffineAt F keys fun net => balanceWithin F.elements.toList net.potentialAt d i c
  | 0, _, _ => .const _
  | d + 1, i, c => by
    refine .sum fun e he => ?_
    have hflux : AffineAt F keys fun net =>
        fluxOf (balanceWithin F.elements.toList net.potentialAt d) net.potentialAt e c := by
      unfold fluxOf
      split
      · split
        · exact (affineAt_balanceWithin hF d e.driven c).neg
        · exact affineAt_balanceWithin hF d e.driven c
      · exact affineAt_passive hpotential (hF e (List.mem_filter.mp he).1) c
    unfold Element.signed
    split
    · exact hflux
    · exact hflux.neg

end

omit [Scalar.Exact α] in
private theorem Linear.ne_orifice (h : F.Linear) : ∀ e ∈ F.elements.toList, e.kind ≠ .orifice := by
  intro e he hk
  rcases h e he with ⟨hk', -⟩ | hk' | hk' <;> rw [hk] at hk' <;> cases hk'

/-- The balance of a node of a `Linear` network is affine in the unknowns. -/
private theorem affineAt_balanceAt (hF : F.Clear) (hord : F.Orderly) (hlinear : F.Linear)
    (hnodup : keys.Nodup) (hkeys : ∀ u, u ∈ keys ↔ F.IsUnknown u) (i c : Nat) :
    AffineAt F keys fun net => net.balanceAt i c := by
  have hpotential (i c : Nat) := affineAt_potentialAt hF hord hnodup hkeys
    (rootedWithin_of_not_hasLoop hF.wellFormed hF.acyclic i) c
  refine (affineAt_balanceWithin hpotential hlinear.ne_orifice (F.nodes.size + 1) i c).congr
    fun _ hnet => ?_
  rw [balanceAt, elements_of_frame_eq hnet.differs.frame, size_of_frame_eq hnet.differs.frame]

/-! ### The system of equations -/

/-- The equation of each unknown has the values of the `affine` function with the coefficients of
its row. -/
def Coefficients (F : Network α) (keys : List ComponentIndex) (M : Nat → Nat → α)
    (b : Nat → α) : Prop :=
  ∀ {i : Nat} {u : ComponentIndex}, keys[i]? = some u → ∀ {x : Unknowns α} {net : Network α},
    x.map Prod.fst = keys → SettledAt x F net →
      net.balanceAt u.node u.component = Newton.affine M b keys.length i x

theorem exists_coefficients (hF : F.Clear) (hord : F.Orderly) (hlinear : F.Linear)
    (hnodup : keys.Nodup) (hkeys : ∀ u, u ∈ keys ↔ F.IsUnknown u) :
    ∃ M b, Coefficients F keys M b := by
  have hrow (i : Nat) : ∃ (m : Nat → α) (b : α), ∀ u, keys[i]? = some u → ∀ {x : Unknowns α}
      {net : Network α}, x.map Prod.fst = keys → SettledAt x F net →
        net.balanceAt u.node u.component =
          b + ∑ j ∈ Finset.range keys.length, m j * Newton.coordinate x j := by
    cases hu : keys[i]? with
    | none => exact ⟨fun _ => 0, 0, nofun⟩
    | some u =>
      obtain ⟨m, b, h⟩ :=
        affineAt_balanceAt hF hord hlinear hnodup hkeys u.node u.component
      exact ⟨m, b, fun v hv => by cases hv; exact h⟩
  choose M b h using hrow
  exact ⟨M, b, fun {i u} hu => h i u hu⟩

/-- The equations are evaluated to the `affine` functions. -/
theorem Coefficients.evaluates {M : Nat → Nat → α} {b : Nat → α} (h : Coefficients F keys M b)
    (hF : F.Clear) (hkeys : ∀ u, u ∈ keys ↔ F.IsUnknown u) {guess : Unknowns α}
    (hguess : guess.map Prod.fst = keys) :
    Newton.Evaluates (DiffersIn (· ∈ keys) F) keys (guess.map fun u => balanceResidual u.1)
      (Newton.affine M b keys.length) := by
  intro i r hr x hx net hnet
  rw [List.getElem?_map] at hr
  obtain ⟨u, hu, rfl⟩ := Option.map_eq_some_iff.mp hr
  have hkey : keys[i]? = some u.1 := by rw [← hguess, List.getElem?_map, hu]; rfl
  have hover : Newton.Over F.IsUnknown x :=
    Newton.over_iff_keys.mpr fun k hk => (hkeys k).mp (hx ▸ hk)
  obtain ⟨y, net', hy⟩ := (failsBy_balance hF ((hkeys u.1).mp (List.mem_of_getElem? hkey))
    hover).exists_ok hnet.frame
  obtain ⟨hsettled, rfl, -⟩ := balance_eq_ok hF.wellFormed (hx ▸ hnet) hy
  refine ⟨net', ?_, hx ▸ hsettled.differs⟩
  rw [← h hkey hx hsettled]
  exact hy

omit [Scalar.Exact α] in
/-- A point can be written into a `Clear` network, and the network be settled there. -/
private theorem exists_settledAt (hF : F.Clear) {x : Unknowns α} (hx : Newton.Over F.IsUnknown x) :
    ∃ net, SettledAt x F net := by
  obtain ⟨_, b, hwrite⟩ := (failsBy_writeUnknowns hF.calm hx).exists_ok rfl
  have hframe := (keeps_frame_writeUnknowns x).of_ok rfl hwrite
  obtain ⟨_, net, hsettle⟩ := (failsBy_settle hF.calm).exists_ok hframe
  exact ⟨net, settledAt_of_settle hF.wellFormed (.refl _ F) hwrite hsettle⟩

/-- Networks that have been `SettledAt` different points are alike if the equations have the same
values there. -/
private theorem SettledAt.alike (hF : F.Clear) (hord : F.Orderly)
    (hkeys : ∀ u, u ∈ keys ↔ F.IsUnknown u) {x y : Unknowns α} {a b : Network α}
    (hx : x.map Prod.fst = keys) (hy : y.map Prod.fst = keys) (ha : SettledAt x F a)
    (hb : SettledAt y F b)
    (hbalance : ∀ u ∈ keys, a.balanceAt u.node u.component = b.balanceAt u.node u.component) :
    a.Alike b := by
  have hframe := ha.differs.frame
  have hba := hb.differs.frame.trans hframe.symm
  have hroot := rootedWithin_of_not_hasLoop hF.wellFormed hF.acyclic
  refine ⟨hba, fun e he => ⟨?_, ?_⟩, fun {i} hi c => ?_, fun {i n} hn hunlocked c hc => ?_⟩
  · exact ha.holds hF.wellFormed hord hroot e he
  · exact hb.holds hF.wellFormed hord hroot e (drivers_of_frame_eq hba ▸ he)
  · obtain ⟨n, hn, hlocked, hdriven⟩ := hi
    obtain ⟨m, hm, hmn⟩ := getElem?_of_frame_eq hframe hn
    rw [drivers_of_frame_eq hframe] at hdriven
    have hnot : ⟨i, c⟩ ∉ keys := by
      intro hkey
      obtain ⟨m', hm', hunlocked, -⟩ := (hkeys _).mp hkey
      rw [hm] at hm'
      cases hm'
      rw [← (Node.frame_eq_iff.mp hmn).2.1, hlocked] at hunlocked
      cases hunlocked
    rw [ha.potentialAt_of_not_mem ((lists_iff hx).mpr hkeys) hdriven (hx ▸ hnot),
      hb.potentialAt_of_not_mem ((lists_iff hy).mpr hkeys) hdriven (hy ▸ hnot)]
  · obtain ⟨m, hm, hmn⟩ := getElem?_of_frame_eq hframe hn
    obtain ⟨hshape, hlock, -⟩ := Node.frame_eq_iff.mp hmn
    have hwidth : n.components = m.components := congrArg Prod.fst hshape
    exact hbalance ⟨i, c⟩ ((hkeys _).mpr ⟨m, hm, hlock.symm.trans hunlocked, hwidth ▸ hc⟩)

/-- **The columns of coefficients are independent** if conductive and driving elements lead from
every unlocked node to the boundary. -/
theorem Coefficients.independent {M : Nat → Nat → α} {b : Nat → α} (h : Coefficients F keys M b)
    (hF : F.Clear) (hord : F.Orderly) (hlinear : F.Linear) (hanchored : F.Anchored)
    (hnodup : keys.Nodup) (hkeys : ∀ u, u ∈ keys ↔ F.IsUnknown u) :
    Newton.IndependentColumns M keys.length := by
  intro z hz
  -- The equations have the same values at the origin and at `z`.
  let x : Unknowns α := keys.map fun u => (u, 0)
  let y : Unknowns α := keys.zipIdx.map fun p => (p.1, z p.2)
  have hx : x.map Prod.fst = keys := by simp [x, Function.comp_def]
  have hy : y.map Prod.fst = keys := (List.map_map ..).trans (List.zipIdx_map_fst 0 keys)
  have hxj : ∀ j ∈ Finset.range keys.length, Newton.coordinate x j = 0 := fun j hj => by
    simp [Newton.coordinate, x, Finset.mem_range.mp hj]
  have hyj : ∀ j ∈ Finset.range keys.length, Newton.coordinate y j = z j := fun j hj => by
    simp [Newton.coordinate, y, Finset.mem_range.mp hj]
  have hover {p : Unknowns α} (hp : p.map Prod.fst = keys) : Newton.Over F.IsUnknown p :=
    Newton.over_iff_keys.mpr fun k hk => (hkeys k).mp (hp ▸ hk)
  obtain ⟨A, hA⟩ := exists_settledAt hF (hover hx)
  obtain ⟨B, hB⟩ := exists_settledAt hF (hover hy)
  have halike : A.Alike B := by
    refine hA.alike hF hord hkeys hx hy hB fun u hu => ?_
    obtain ⟨k, hk⟩ := List.mem_iff_getElem?.mp hu
    have hAk : Newton.affine M b keys.length k x = b k := by
      rw [Newton.affine, Finset.sum_eq_zero fun j hj => by rw [hxj j hj, mul_zero], add_zero]
    have hBk : Newton.affine M b keys.length k y = b k := by
      rw [Newton.affine, Finset.sum_congr rfl fun j hj => congrArg (M k j * ·) (hyj j hj),
        hz k (List.getElem?_eq_some_iff.mp hk).1, add_zero]
    rw [h hk hx hA, h hk hy hB, hAk, hBk]
  -- So the potentials are the same there, among them the unknowns themselves.
  intro j hj
  have hu : keys[j]? = some ⟨keys[j].node, keys[j].component⟩ := List.getElem?_eq_getElem hj
  obtain ⟨n, hn, hunlocked, -⟩ := (hkeys _).mp (List.mem_of_getElem? hu)
  have hdriven := hord.undriven hn hunlocked
  have hframe := hA.differs.frame.symm
  obtain ⟨m, hm, hmn⟩ := getElem?_of_frame_eq hframe hn
  obtain ⟨l, hil, hl⟩ := hanchored.of_frame_eq hframe hm
    ((Node.frame_eq_iff.mp hmn).2.1.symm.trans hunlocked)
  have heq := halike.potentialAt_eq (hF.wellFormed.of_frame_eq hframe) (hord.of_frame_eq hframe)
    (mt (hasLoop_of_frame_eq hframe).mpr hF.acyclic) (hlinear.of_frame_eq hframe) hil hl
    keys[j].component
  rw [hA.potentialAt_eq_coordinate (hx ▸ hnodup) ((congrArg (·[j]?) hx).trans hu) hdriven,
    hB.potentialAt_eq_coordinate (hy ▸ hnodup) ((congrArg (·[j]?) hy).trans hu) hdriven,
    hxj j (Finset.mem_range.mpr hj), hyj j (Finset.mem_range.mpr hj)] at heq
  exact heq.symm

end FluxBalance.Network
