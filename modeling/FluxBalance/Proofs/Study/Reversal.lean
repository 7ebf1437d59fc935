import FluxBalance.Proofs.Library.Reversal
import FluxBalance.Proofs.Study.Ordering

/-!
# Orientation is a sign

Of the elements that are added to a network some may be replaced by their reversals: their ends are
exchanged, and their gains are negated if they have a direction. Other nodes may then be driven, so
other nodes are unknown and their equations are others. But at the same potentials the unlocked
nodes of the one network balance exactly if those of the other one do, and the fluxes of the
reversals are then the negative ones.

## Main definitions and results

* `Request.Reverses`, `ReversedSome`: requests for reversals, of which some replace the others;
* `Grown.redirected`: the networks that are built are `Redirected`;
* `addAll_reversed`: they are solved at the same potentials, with the negative fluxes at reversals.
-/

namespace FluxBalance

open FluxBalance.Computation Network

variable {α : Type} [Scalar α]

namespace Network

variable {net a b : Network α} {V : Nat → Nat → α}

/-! ### Networks at given potentials -/

/-- Across every driving element the potential rises by its gain. -/
def Rises (net : Network α) (V : Nat → Nat → α) : Prop :=
  ∀ e ∈ net.drivers, ∀ c < e.gain.rows, V e.output c = V e.input c + e.gain.entry c 0

/-- At the potentials the discrepancies of unlocked nodes are zero. -/
def BalancedAt (net : Network α) (V : Nat → Nat → α) : Prop :=
  ∀ ⦃i : Nat⦄ ⦃n : Node α⦄, net.nodes[i]? = some n → n.isLocked = false →
    ∃ d, discrepancy i (net.withPotentials V) = .ok d (net.withPotentials V) ∧
      ∀ c < n.components, d.entry c 0 = 0

/-- Being `BalancedAt` potentials means that the network with these potentials is `Balanced`. -/
private theorem balancedAt_iff (h : net.Clear) :
    net.BalancedAt V ↔ (net.withPotentials V).Balanced := by
  constructor
  · intro hbalanced i m hm hunlocked
    rw [getElem?_withPotentials] at hm
    obtain ⟨n, hn, rfl⟩ := Option.map_eq_some_iff.mp hm
    exact (exists_discrepancy_eq_zero_iff h hn).mp (hbalanced hn hunlocked)
  · intro hbalanced i n hn hunlocked
    have hm := getElem?_withPotentials net V i
    rw [hn, Option.map_some] at hm
    exact (exists_discrepancy_eq_zero_iff h hn).mpr fun c hc => hbalanced hm hunlocked c hc

/-- Columns are the same or negative if their entries are. -/
private theorem Tabulates.eq_of_turned [Scalar.Exact α] {F G : DenseMatrix α} {w : Nat}
    {x y : Nat → α} (hF : Tabulates F w x) (hG : Tabulates G w y) {turned : Bool}
    (h : ∀ c < w, y c = Element.turn turned (x c)) : G = if turned then F.neg else F := by
  obtain ⟨hrows, hcols⟩ :
      (if turned then F.neg else F).rows = w ∧ (if turned then F.neg else F).cols = 1 := by
    cases turned <;> exact ⟨hF.rows, hF.cols⟩
  have hturn (c j : Nat) :
      (if turned then F.neg else F).entry c j = Element.turn turned (F.entry c j) := by
    cases turned
    · rfl
    · exact DenseMatrix.entry_neg_of_exact F c j
  refine DenseMatrix.ext_entry (hG.rows.trans hrows.symm) (hG.cols.trans hcols.symm)
    fun c j hc hj => ?_
  rw [hG.rows] at hc
  rw [hG.cols] at hj
  obtain rfl : j = 0 := by omega
  rw [hturn, hF.entry c hc, hG.entry c hc, h c hc]

/-! ### Networks of which one is redirected -/

/-- A `Clear` and `Orderly` network is `Forested`, at any potentials. -/
private theorem forested_withPotentials (h : net.Clear) (hord : net.Orderly) (V : Nat → Nat → α) :
    (net.withPotentials V).Forested :=
  Forested.of_frame_eq ⟨h.wellFormed, hord, h.acyclic⟩ (frame_withPotentials h.wellFormed V).symm

namespace Redirected

/-- For every element of the second network there is one of the first that it `Matches`. -/
private theorem exists_left (h : a.Redirected b) {k : Nat} {f : Element α}
    (hk : b.elements[k]? = some f) :
    ∃ e turned, a.elements[k]? = some e ∧ Element.Matches turned e f := by
  have hsize : a.elements.size = b.elements.size := by
    simpa only [Array.length_toList] using h.elements.length_eq
  obtain ⟨hlt, -⟩ := Array.getElem?_eq_some_iff.mp hk
  have hk' := Array.getElem?_eq_getElem (hsize ▸ hlt : k < a.elements.size)
  obtain ⟨turned, hmatches⟩ := h.exists_matches (p := (_, f)) (mem_pairs_iff.mpr ⟨k, hk', hk⟩)
  exact ⟨_, turned, hk', hmatches⟩

theorem withPotentials (h : a.Redirected b) (ha : a.Clear) (hb : b.Clear) (V : Nat → Nat → α) :
    (a.withPotentials V).Redirected (b.withPotentials V) :=
  h.of_frame_eq (frame_withPotentials ha.wellFormed V).symm
    (frame_withPotentials hb.wellFormed V).symm

/-- Networks that are `Redirected` have the given potentials at the same components. -/
theorem potentialAt_withPotentials (h : a.Redirected b) (V : Nat → Nat → α) (i c : Nat) :
    (a.withPotentials V).potentialAt i c = (b.withPotentials V).potentialAt i c := by
  rw [Network.potentialAt_withPotentials, Network.potentialAt_withPotentials, h.width]

variable [Scalar.Exact α]

/-- **The potential rises by the gains of the one network if it does by those of the other.** -/
theorem rises (h : a.Redirected b) (ha : a.Rises V) : b.Rises V := by
  intro f hf c hc
  obtain ⟨⟨k, hk⟩, hd⟩ := mem_drivers.mp hf
  obtain ⟨e, turned, hk', hmatches⟩ := h.exists_left hk
  have hd' : e.kind.drives = true := hmatches.kind ▸ hd
  exact (hmatches.rises_iff hd' V c).mpr
    (ha e (mem_drivers.mpr ⟨⟨k, hk'⟩, hd'⟩) c (hmatches.rows_gain ▸ hc))

/-- **Discrepancies of unlocked nodes vanish in the one network if they do in the other.** -/
theorem balancedAt (h : a.Redirected b) (ha : a.Clear) (hb : b.Clear) (hord : a.Orderly)
    (hord' : b.Orderly) (hbalanced : a.BalancedAt V) : b.BalancedAt V :=
  (balancedAt_iff hb).mpr <| (h.withPotentials ha hb V).balanced (h.potentialAt_withPotentials V)
    (forested_withPotentials ha hord V) (forested_withPotentials hb hord' V)
    ((balancedAt_iff ha).mp hbalanced)

/-- **Reversed elements have the negative fluxes.** -/
theorem exists_flux_eq (h : a.Redirected b) (ha : a.Clear) (hb : b.Clear) (hord : a.Orderly)
    (hord' : b.Orderly) (hbalanced : a.BalancedAt V) {k : Nat} {e f : Element α}
    (hk : a.elements[k]? = some e) (hk' : b.elements[k]? = some f) {turned : Bool}
    (hmatches : Element.Matches turned e f) :
    ∃ F G, flux e (a.withPotentials V) = .ok F (a.withPotentials V) ∧
      flux f (b.withPotentials V) = .ok G (b.withPotentials V) ∧
      G = if turned then F.neg else F := by
  have hclear := ha.of_frame_eq (frame_withPotentials ha.wellFormed V).symm
  have hclear' := hb.of_frame_eq (frame_withPotentials hb.wellFormed V).symm
  obtain ⟨w, hfits⟩ := hclear.wellFormed.fits hk
  obtain ⟨w', hfits'⟩ := hclear'.wellFormed.fits hk'
  obtain ⟨F, hF⟩ := exists_flux hclear (Array.mem_toList_iff.mpr (Array.mem_of_getElem? hk))
  obtain ⟨G, hG⟩ := exists_flux hclear' (Array.mem_toList_iff.mpr (Array.mem_of_getElem? hk'))
  obtain ⟨-, htab, -⟩ := flux_eq_ok hclear.wellFormed hfits hF
  obtain ⟨-, htab', -⟩ := flux_eq_ok hclear'.wellFormed hfits' hG
  have hredirected := h.withPotentials ha hb V
  obtain rfl : w = w' := by
    have hwidth := hredirected.width e.input
    rw [hfits.input, width?_of_touches (hmatches.touches_iff.mpr (.inl rfl)) hfits'] at hwidth
    exact Option.some.inj hwidth
  have hmem : (e, f) ∈ pairs (a.withPotentials V) (b.withPotentials V) :=
    mem_pairs_iff.mpr ⟨k, hk, hk'⟩
  refine ⟨F, G, hF, hG, htab.eq_of_turned htab' fun c hc => ?_⟩
  exact hredirected.fluxAt_eq (h.potentialAt_withPotentials V) (forested_withPotentials ha hord V)
    (forested_withPotentials hb hord' V) ((balancedAt_iff ha).mp hbalanced) hmem hmatches hfits' hc

end Redirected

end Network

/-! ### Requests for reversals -/

variable {c : Catalogue α} {modelType : Option String} {net net₁ net₂ : Network α}
  {rs rs' : List (Request α)}

/-- The second request is for the reversal of the element that the first one is for: the kind is the
same, the ends are exchanged, and the gain is the negative one if it has a direction. -/
def Request.Reverses (c : Catalogue α) (modelType : Option String) (net : Network α)
    (r r' : Request α) : Prop :=
  ∀ e ∈ r.sketch c modelType net, ∀ f ∈ r'.sketch c modelType net, Element.Matches true e f

/-- A `Reversible` constructor is asked for the reversal by exchanging the ends, and by the negative
gain if it has a direction. -/
private theorem Request.reverses_of_reversible {spec : ElementSpec α}
    (hspec : Constructor.Reversible fun net input output gain =>
      spec.make c modelType net input output gain)
    {input output : Int} {gain : Gain α} (hgain : gain.Numeric) {e : Element α}
    (he : sketch c modelType net ⟨spec, input, output, gain⟩ = some e) :
    Reverses c modelType net ⟨spec, input, output, gain⟩
      ⟨spec, output, input, gain.reversed e.kind⟩ := by
  intro e' he' f hf
  obtain rfl : e' = e := Option.some.inj (he'.symm.trans he)
  exact hspec hgain (make_of_sketch he) (make_of_sketch hf)

/-- The kinds are asked for reversals in this way. -/
theorem Request.reverses_kind (kind : ElementKind) (input output : Int) {gain : Gain α}
    (hgain : gain.Numeric) :
    Reverses c modelType net ⟨.kind kind, input, output, gain⟩
      ⟨.kind kind, output, input, gain.reversed kind⟩ := by
  intro e he f hf
  have hnew : Element.new net.bare kind input output gain = .ok e := make_of_sketch he
  have hback : Element.new net.bare kind output input (gain.reversed e.kind) = .ok f :=
    Element.kind_of_new hnew ▸ make_of_sketch hf
  exact Element.reversible_new kind hgain hnew hback

/-- The constructors of the standard libraries are asked in this way, too. -/
private theorem Request.reverses_named (name : String) (input output : Int) {gain : Gain α}
    (hgain : gain.Numeric) {e : Element α}
    (he : sketch .standard modelType net ⟨.named name, input, output, gain⟩ = some e) :
    Reverses .standard modelType net ⟨.named name, input, output, gain⟩
      ⟨.named name, output, input, gain.reversed e.kind⟩ :=
  reverses_of_reversible (ElementSpec.reversible_make_named name modelType) hgain he

/-- Some requests are replaced by requests for the reversals. -/
def ReversedSome (c : Catalogue α) (modelType : Option String) (net : Network α) :
    List (Request α) → List (Request α) → Prop :=
  List.Forall₂ fun r r' => r' = r ∨ r.Reverses c modelType net r'

/-- What has been added is what has been asked for. -/
private theorem Grown.sketches (h : Grown c modelType rs net net₁) :
    List.Forall₂ (fun r e => r.sketch c modelType net = some e) rs
      (rs.filterMap (Request.sketch c modelType net)) := by
  have hmade := h.made
  clear h
  induction rs with
  | nil => exact .nil
  | cons r rs ih =>
    obtain ⟨⟨e, he⟩, hrs⟩ := List.forall_mem_cons.mp hmade
    rw [List.filterMap_cons_some he]
    exact .cons he (ih hrs)

/-- The elements follow those of the network in the order of the requests. -/
private theorem Grown.getElem?_elements (h : Grown c modelType rs net net₁) {j : Nat}
    {r : Request α} (hr : rs[j]? = some r) :
    ∃ e f, r.sketch c modelType net = some e ∧ net₁.elements[net.elements.size + j]? = some f ∧
      f.unoriented = e.unoriented := by
  obtain ⟨hj, rfl⟩ := List.getElem?_eq_some_iff.mp hr
  have hj' : j < (rs.filterMap (Request.sketch c modelType net)).length :=
    h.sketches.length_eq ▸ hj
  have hat := congrArg (fun l => l[net.elements.size + j]?) h.elements
  simp only [List.getElem?_map] at hat
  rw [List.getElem?_append_right (by simp), Array.length_toList, Nat.add_sub_cancel_left,
    List.getElem?_eq_getElem hj', Option.map_some, Option.map_eq_some_iff] at hat
  obtain ⟨f, hf, hunoriented⟩ := hat
  exact ⟨_, f, h.sketches.get hj hj', by rwa [Array.getElem?_toList] at hf, hunoriented⟩

/-- The elements of the second list are those of the first one, or their reversals. -/
private theorem ReversedSome.sketches (h : ReversedSome c modelType net rs rs')
    (hmade : ∀ r ∈ rs, ∃ e, r.sketch c modelType net = some e)
    (hmade' : ∀ r ∈ rs', ∃ e, r.sketch c modelType net = some e) :
    List.Forall₂ (fun e f => ∃ turned, Element.Matches turned e f)
      (rs.filterMap (Request.sketch c modelType net))
      (rs'.filterMap (Request.sketch c modelType net)) := by
  induction h with
  | nil => exact .nil
  | @cons r r' rs rs' hr _ ih =>
    obtain ⟨⟨e, he⟩, hmade⟩ := List.forall_mem_cons.mp hmade
    obtain ⟨⟨f, hf⟩, hmade'⟩ := List.forall_mem_cons.mp hmade'
    rw [List.filterMap_cons_some he, List.filterMap_cons_some hf]
    refine .cons ?_ (ih hmade hmade')
    rcases hr with rfl | hr
    · rw [he] at hf
      cases hf
      exact ⟨false, .refl e⟩
    · exact ⟨true, hr e he f hf⟩

/-- **Replacing requests by requests for reversals redirects the network.** -/
theorem Grown.redirected (hreversed : ReversedSome c modelType net rs rs')
    (h₁ : Grown c modelType rs net net₁) (h₂ : Grown c modelType rs' net net₂) :
    net₁.Redirected net₂ where
  width i := (h₁.width i).trans (h₂.width i).symm
  boundary i := (h₁.boundary i).trans (h₂.boundary i).symm
  elements := by
    -- What the network had before is the same in both, and is followed by what has been added.
    have hold : List.Forall₂ (fun e f => ∃ turned, Element.Matches turned e f)
        net.elements.toList net.elements.toList :=
      List.forall₂_same.mpr fun e _ => ⟨false, .refl e⟩
    have hall := forall₂_map (S := fun e f => ∃ turned, Element.Matches turned e f)
      (g := Element.unoriented) (k := Element.unoriented)
      (fun e _ f ⟨turned, hef⟩ => ⟨turned, Element.Matches.unoriented_iff.mpr hef⟩)
      (List.rel_append hold (hreversed.sketches h₁.made h₂.made))
    rw [← h₁.elements, ← h₂.elements, List.forall₂_map_left_iff, List.forall₂_map_right_iff] at hall
    exact hall.imp fun e f ⟨turned, hef⟩ => ⟨turned, Element.Matches.unoriented_iff.mp hef⟩

/-- **Orientation is only a sign.** Let some requests be replaced by requests for the reversals, and
let all elements be added in both cases, without a loop of driving elements. Then, in exact
arithmetic, the same potentials rise by the gains of the driving elements and make the unlocked
nodes balance in both networks. Where they balance, the fluxes of reversed elements are the negative
ones, and the fluxes of all others are the same. -/
theorem addAll_reversed [Scalar.Exact α] (hc : c.Regular) (hc' : c.Uniform)
    (hrs : ∀ r ∈ rs, r.Valid) (hrs' : ∀ r ∈ rs', r.Valid)
    (hreversed : ReversedSome c modelType net rs rs')
    (hnet : Network.Reachable (fun m => ¬m.Enters) net)
    (hadd : addAll c modelType rs net = .ok () net₁)
    (hadd' : addAll c modelType rs' net = .ok () net₂)
    (hloop : ¬net₁.HasLoop) (hloop' : ¬net₂.HasLoop) (V : Nat → Nat → α) :
    (net₁.Rises V ↔ net₂.Rises V) ∧ (net₁.BalancedAt V ↔ net₂.BalancedAt V) ∧
    (net₁.BalancedAt V → ∀ (j : Nat) (r r' : Request α), rs[j]? = some r → rs'[j]? = some r' →
      ∃ e f F G, net₁.elements[net.elements.size + j]? = some e ∧
        net₂.elements[net.elements.size + j]? = some f ∧
        flux e (net₁.withPotentials V) = .ok F (net₁.withPotentials V) ∧
        flux f (net₂.withPotentials V) = .ok G (net₂.withPotentials V) ∧
        (r' = r → G = F) ∧ (r.Reverses c modelType net r' → G = F.neg)) := by
  have h₁ := grown_of_addAll hc hc' hrs hnet hadd
  have h₂ := grown_of_addAll hc hc' hrs' hnet hadd'
  have hord := orderly_of_reachable h₁.reachable
  have hord' := orderly_of_reachable h₂.reachable
  have hclear := clear_of_reachable h₁.reachable hord.free hloop
  have hclear' := clear_of_reachable h₂.reachable hord'.free hloop'
  have h := h₁.redirected hreversed h₂
  refine ⟨⟨h.rises, h.symm.rises⟩, ⟨h.balancedAt hclear hclear' hord hord',
    h.symm.balancedAt hclear' hclear hord' hord⟩, fun hbalanced j r r' hr hr' => ?_⟩
  obtain ⟨e₀, e, he₀, he, hee⟩ := h₁.getElem?_elements hr
  obtain ⟨f₀, f, hf₀, hf, hff⟩ := h₂.getElem?_elements hr'
  obtain ⟨_, hmatches⟩ := h.exists_matches (p := (e, f)) (Redirected.mem_pairs_iff.mpr ⟨_, he, hf⟩)
  obtain ⟨F, G, hF, hG, -⟩ := h.exists_flux_eq hclear hclear' hord hord' hbalanced he hf hmatches
  -- The elements are those of the sketches but for the ends that they drive.
  have hvalue {turned : Bool} (hmatches : Element.Matches turned e₀ f₀) :
      G = if turned then F.neg else F := by
    rw [← Element.Matches.unoriented_iff, ← hee, ← hff, Element.Matches.unoriented_iff] at hmatches
    obtain ⟨F', G', hF', hG', hvalue⟩ :=
      h.exists_flux_eq hclear hclear' hord hord' hbalanced he hf hmatches
    rw [hF] at hF'
    cases hF'
    rw [hG] at hG'
    cases hG'
    exact hvalue
  refine ⟨e, f, F, G, he, hf, hF, hG, ?_, fun hreverses => ?_⟩
  · rintro rfl
    rw [he₀] at hf₀
    cases hf₀
    exact hvalue (.refl e₀)
  · exact hvalue (hreverses e₀ he₀ f₀ hf₀)

/-! ### A loop of which the source is reversed -/

/-- A voltage source from the first node to the second one, from where a conductor and a resistor
lead back to it. -/
def roundTrip : List (Request Rat) :=
  [⟨.named "voltage_source", 0, 1, .number 1⟩, ⟨.kind .conductive, 1, 2, .number 1⟩,
    ⟨.named "resistor", 2, 0, .number 1⟩]

/-- The source and the resistor of `roundTrip` are reversed. -/
def roundTripReversed : List (Request Rat) :=
  [⟨.named "voltage_source", 1, 0, .number (-1)⟩, ⟨.kind .conductive, 1, 2, .number 1⟩,
    ⟨.named "resistor", 0, 2, .number 1⟩]

/-- A registered name is asked for the reversal as the kind of what it makes is. -/
private theorem Request.reverses_named_of_kind {name : String} {input output : Int}
    {gain : Gain α} (hgain : gain.Numeric) (kind : ElementKind)
    (hkind : (sketch .standard modelType net ⟨.named name, input, output, gain⟩).map Element.kind =
      some kind) :
    Reverses .standard modelType net ⟨.named name, input, output, gain⟩
      ⟨.named name, output, input, gain.reversed kind⟩ := by
  obtain ⟨e, he, rfl⟩ := Option.map_eq_some_iff.mp hkind
  exact reverses_named name input output hgain he

private theorem reverses_source :
    Request.Reverses .standard (some "dc_circuit") Network.floating
      ⟨.named "voltage_source", 0, 1, .number 1⟩ ⟨.named "voltage_source", 1, 0, .number (-1)⟩ := by
  have hgain : Gain.reversed .potentialDrive (.number 1 : Gain Rat) = .number (-1) := by
    simp [Gain.reversed, ElementKind.isDirected, Gain.neg]
  exact hgain ▸ Request.reverses_named_of_kind (.number 1) .potentialDrive (by decide +kernel)

private theorem reverses_resistor :
    Request.Reverses .standard (some "dc_circuit") Network.floating
      ⟨.named "resistor", 2, 0, .number 1⟩ ⟨.named "resistor", 0, 2, .number 1⟩ :=
  Request.reverses_named_of_kind (.number 1) .conductive (by decide +kernel)

/-- Some requests of `roundTrip` are reversed in `roundTripReversed`. -/
private theorem reversedSome_roundTrip :
    ReversedSome .standard (some "dc_circuit") Network.floating roundTrip roundTripReversed :=
  .cons (.inr reverses_source) <| .cons (.inl rfl) <| .cons (.inr reverses_resistor) .nil

private theorem valid_roundTrip :
    (∀ r ∈ roundTrip, r.Valid) ∧ ∀ r ∈ roundTripReversed, r.Valid := by
  have hkind (kind : ElementKind) (i o : Int) (gain : Gain Rat) :
      (⟨.kind kind, i, o, gain⟩ : Request Rat).Valid := ⟨trivial, trivial⟩
  have hnamed (name : String) (i o : Int) (gain : Gain Rat) :
      (⟨.named name, i, o, gain⟩ : Request Rat).Valid := ⟨trivial, trivial⟩
  simp [roundTrip, roundTripReversed, hkind, hnamed]

/-- What becomes of three nodes when the requests are added one after the other. -/
def wired (rs : List (Request Rat)) : Network Rat :=
  finalState (addAll .standard (some "dc_circuit") rs Network.floating)

/-- Requests that succeed and let no driven node drive another one. -/
private theorem exists_addAll_floating (rs : List (Request Rat))
    (hok : succeeded (addAll .standard (some "dc_circuit") rs Network.floating) = true)
    (hdrivers : ∀ e ∈ (wired rs).drivers, ∀ f ∈ (wired rs).drivers, e.driven ≠ f.dominant) :
    addAll .standard (some "dc_circuit") rs Network.floating = .ok () (wired rs) ∧
      ¬(wired rs).HasLoop := by
  obtain ⟨⟨⟩, net, h⟩ := succeeded_eq_true_iff.mp hok
  rw [wired, h] at hdrivers ⊢
  exact ⟨rfl, not_hasLoop_of_forall_ne hdrivers⟩

/-- Potentials at which half a unit flows through each element. -/
def halfway (i _ : Nat) : Rat := [0, 1, mkRat 1 2].getD i 0

/-- At the potentials `halfway` the network of `roundTrip` is `Balanced`. -/
private theorem balanced_roundTrip : ((wired roundTrip).withPotentials halfway).Balanced := by
  let net := (wired roundTrip).withPotentials halfway
  have hbalances : ∀ i < net.nodes.size, net.locked i = true ∨ net.balanceAt i 0 = 0 := by
    decide +kernel
  have hcomponents : ∀ n ∈ net.nodes.toList, n.components = 1 := by decide +kernel
  intro i n hn hunlocked c hc
  have hn : net.nodes[i]? = some n := hn
  rw [hcomponents n (Array.mem_toList_iff.mpr (Array.mem_of_getElem? hn))] at hc
  obtain rfl : c = 0 := by omega
  rcases hbalances i (Array.getElem?_eq_some_iff.mp hn).1 with hlocked | hzero
  · rw [Network.locked, hn] at hlocked
    cases hunlocked.symm.trans hlocked
  · exact hzero

/-- The source locks the second node, and its reversal the first one. So other nodes are unlocked,
but they balance, too, and the source carries its `flux` in the opposite direction. -/
theorem addAll_reversed_roundTrip : ∃ net₁ net₂ : Network Rat,
    addAll .standard (some "dc_circuit") roundTrip Network.floating = .ok () net₁ ∧
    addAll .standard (some "dc_circuit") roundTripReversed Network.floating = .ok () net₂ ∧
    net₁.locked 0 = false ∧ net₂.locked 0 = true ∧
    (net₁.Rises halfway ↔ net₂.Rises halfway) ∧ net₂.BalancedAt halfway ∧
    ∃ e f F G, net₁.elements[0]? = some e ∧ net₂.elements[0]? = some f ∧
      flux e (net₁.withPotentials halfway) = .ok F (net₁.withPotentials halfway) ∧
      flux f (net₂.withPotentials halfway) = .ok G (net₂.withPotentials halfway) ∧
      G = F.neg := by
  have hregular : Catalogue.Regular (.standard : Catalogue Rat) := Catalogue.regular_standard
  have huniform : Catalogue.Uniform (.standard : Catalogue Rat) := Catalogue.uniform_standard
  obtain ⟨h₁, hloop₁⟩ :=
    exists_addAll_floating roundTrip (by decide +kernel) (by decide +kernel)
  obtain ⟨h₂, hloop₂⟩ :=
    exists_addAll_floating roundTripReversed (by decide +kernel) (by decide +kernel)
  obtain ⟨hrises, hbalanced, hfluxes⟩ := addAll_reversed hregular huniform valid_roundTrip.1
    valid_roundTrip.2 reversedSome_roundTrip reachable_floating h₁ h₂ hloop₁ hloop₂ halfway
  have hgrown := grown_of_addAll hregular huniform valid_roundTrip.1 reachable_floating h₁
  have hclear := clear_of_reachable hgrown.reachable
    (orderly_of_reachable hgrown.reachable).free hloop₁
  have hbalanced₁ := (balancedAt_iff hclear).mpr balanced_roundTrip
  obtain ⟨e, f, F, G, he, hf, hF, hG, -, hneg⟩ := hfluxes hbalanced₁ 0 _ _ rfl rfl
  exact ⟨_, _, h₁, h₂, by decide +kernel, by decide +kernel, hrises, hbalanced.mp hbalanced₁,
    e, f, F, G, he, hf, hF, hG, hneg reverses_source⟩

end FluxBalance
