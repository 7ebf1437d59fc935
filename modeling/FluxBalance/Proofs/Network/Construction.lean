import FluxBalance.Proofs.Network.Settling

/-!
# Putting elements in keeps networks in order

An element that is made against a network fits it, and if it drives, the node that it drives is not
locked yet. Joining such an element keeps a network `WellFormed`, even if it fails half-way because
somebody is inside the driven node. If nobody is inside any node, it keeps the network `Orderly` as
well: the node that the new element drives was unlocked, so no other element drives it, and it is
locked now.

## Main definitions and results

* `Element.Made`: what is known of an element that has been made against a network;
* `wellFormed_addElement`, `orderly_addElement`: joining such an element keeps a network
  `WellFormed` and `Orderly`.
-/

namespace FluxBalance

open FluxBalance.Computation Network

variable {α : Type}

/-! ### Elements that are made against a network -/

section

variable [Scalar α]

/-- A gain that `checkGain` accepts has the `shape` of its kind. -/
private theorem shape_checkGain {kind : ElementKind} {gain checked : DenseMatrix α} {w : Nat}
    (h : kind.checkGain gain w = .ok checked) : checked.shape = kind.gainShape w := by
  have hcolumn {what : String} (h : columnGain what gain w = .ok checked) :
      checked.shape = (w, 1) := by
    unfold columnGain at h
    split at h
    · cases h
      assumption
    · split at h
      · cases h
        simp [DenseMatrix.shape, DenseMatrix.column, DenseMatrix.ofFn]
      · cases h
  cases kind with
  | conductive =>
    have hsquare : squareGain ElementKind.conductive.name gain w = .ok checked := h
    unfold squareGain at hsquare
    split at hsquare
    · cases hsquare
      assumption
    · split at hsquare
      · cases hsquare
        rfl
      · cases hsquare
  | constantFlux => exact hcolumn h
  | orifice => exact hcolumn h
  | potentialDrive => exact hcolumn h

/-- What is known of an element that has been made against a network. -/
structure Element.Made (e : Element α) (net : Network α) : Prop where
  fits : ∃ w, e.Fits net w
  unlocked : e.kind.drives = true → ∃ n, net.nodes[e.driven]? = some n ∧ n.isLocked = false

omit [Scalar α] in
/-- A driving element drives its output unless that is locked; one of its ends has to be
unlocked. -/
private theorem driveEnd_eq_ok {net : Network α} {i o : Nat} {before after : Node α}
    (hi : net.nodes[i]? = some before) (ho : net.nodes[o]? = some after) {drivesOutput : Bool}
    (h : Element.driveEnd net i o = .ok drivesOutput) :
    (before.isLocked && after.isLocked) = false ∧ drivesOutput = !after.isLocked := by
  unfold Element.driveEnd at h
  rw [node_natCast_eq_ok_iff.mpr hi, node_natCast_eq_ok_iff.mpr ho] at h
  cases hlocked : before.isLocked && after.isLocked with
  | true => simp [hlocked, bind, Except.bind, throw, throwThe, MonadExceptOf.throw] at h
  | false =>
    simp [hlocked, bind, Except.bind, pure, Except.pure] at h
    exact ⟨rfl, by rw [h, Bool.not_not]⟩

/-- What `Element.new` makes fits the network, `Element.Made`. -/
theorem Element.made_of_new {net : Network α} {kind : ElementKind} {input output : Int}
    {gain : Gain α} {e : Element α} (h : Element.new net kind input output gain = .ok e) :
    e.Made net := by
  unfold Element.new at h
  obtain ⟨before, hbefore, h⟩ := except_bind_eq_ok.mp h
  obtain ⟨after, hafter, h⟩ := except_bind_eq_ok.mp h
  obtain ⟨i, rfl, hi⟩ := node_eq_ok_iff.mp hbefore
  obtain ⟨o, rfl, ho⟩ := node_eq_ok_iff.mp hafter
  -- The checks in their order: two different nodes, one width, a gain that fits it, a node to
  -- drive.
  dsimp only at h
  split at h
  · cases h
  rename_i hne
  split at h
  · cases h
  rename_i hwidth
  obtain ⟨given, -, h⟩ := except_bind_eq_ok.mp h
  split at h
  · cases h
  rename_i checked hchecked
  obtain ⟨drivesOutput, hplanned, h⟩ := except_bind_eq_ok.mp h
  cases h
  have hfits : Element.Fits ⟨kind, i, o, checked, drivesOutput⟩ net before.components := by
    refine ⟨?_, ?_, ?_, shape_checkGain hchecked⟩
    · exact fun hio => hne (congrArg Nat.cast hio)
    · exact width?_eq_some.mpr ⟨before, hi, rfl⟩
    · exact width?_eq_some.mpr ⟨after, ho, (Decidable.not_not.mp hwidth).symm⟩
  refine ⟨⟨_, hfits⟩, fun hdrives => ?_⟩
  rw [Element.planned, if_pos hdrives] at hplanned
  obtain ⟨hlocked, rfl⟩ := driveEnd_eq_ok hi ho hplanned
  unfold Element.driven
  cases hafterLocked : after.isLocked with
  | false => exact ⟨after, ho, hafterLocked⟩
  | true => exact ⟨before, hi, by simpa [hafterLocked] using hlocked⟩

end

/-! ### Registration -/

namespace Network

/-- Registering an element appends its position at the nodes whose balance it enters. -/
theorem getElem?_register {net : Network α} {e : Element α} (hne : e.input ≠ e.output) (i : Nat) :
    (net.register e).nodes[i]? = net.nodes[i]?.map fun n =>
      if i ∈ e.endpoints then { n with elements := n.elements ++ [net.elements.size] } else n := by
  have hmodify (nodes : Array (Node α)) (j : Nat) :
      (nodes.modify j fun n => { n with elements := n.elements ++ [net.elements.size] })[i]? =
        nodes[i]?.map fun n =>
          if j = i then { n with elements := n.elements ++ [net.elements.size] } else n := by
    rw [Array.getElem?_modify]
    by_cases h : j = i <;> simp [h]
  unfold register Element.endpoints
  split
  · simp only [List.foldl_cons, List.foldl_nil, hmodify, List.mem_singleton, eq_comm]
  · simp only [List.foldl_cons, List.foldl_nil, hmodify, Option.map_map]
    refine Option.map_congr fun n _ => ?_
    by_cases hin : e.input = i
    · subst hin
      simp [hne.symm]
    · by_cases hout : e.output = i
      · subst hout
        simp [hne]
      · simp [hin, hout, Ne.symm hin, Ne.symm hout]

/-- Registering an element does not change the widths of nodes. -/
theorem width?_register {net : Network α} {e : Element α} (hne : e.input ≠ e.output) (i : Nat) :
    (net.register e).width? i = net.width? i := by
  unfold width?
  rw [getElem?_register hne]
  cases net.nodes[i]? with
  | none => rfl
  | some n =>
    simp only [Option.map_some]
    split <;> rfl

/-- At its endpoints the new element is registered last. -/
private theorem registeredAt_register {net : Network α} {e : Element α} (i : Nat) :
    (net.register e).registeredAt i =
      net.registeredAt i ++ if i ∈ e.endpoints then [net.elements.size] else [] := by
  unfold registeredAt
  simp only [register, Array.toList_push, List.zipIdx_append, List.filter_append, List.map_append]
  congr 1
  by_cases h : i ∈ e.endpoints <;> simp [h]

/-- Elements that fit a network fit it after another one has been registered. -/
theorem fits_register {net : Network α} {e f : Element α} {w : Nat} (hne : e.input ≠ e.output)
    (h : f.Fits net w) : f.Fits (net.register e) w where
  ends_ne := h.ends_ne
  input := by rw [width?_register hne]; exact h.input
  output := by rw [width?_register hne]; exact h.output
  gain := h.gain

/-- A new element comes after the old ones. -/
private theorem getElem?_elements_register {net : Network α} {e f : Element α} {k : Nat}
    (h : (net.register e).elements[k]? = some f) :
    net.elements[k]? = some f ∨ k = net.elements.size ∧ f = e := by
  have hpush : (net.elements.push e)[k]? = some f := h
  rw [Array.getElem?_push] at hpush
  split at hpush
  · exact .inr ⟨‹_›, (Option.some.inj hpush).symm⟩
  · exact .inl hpush

/-- A node of a network in which an element has been registered was there before. -/
theorem getElem?_of_register {net : Network α} {e : Element α} (hne : e.input ≠ e.output)
    {i : Nat} {n : Node α} (hn : (net.register e).nodes[i]? = some n) :
    ∃ m, net.nodes[i]? = some m ∧ n.isLocked = m.isLocked ∧ n.access = m.access := by
  rw [getElem?_register hne] at hn
  obtain ⟨m, hm, rfl⟩ := Option.map_eq_some_iff.mp hn
  refine ⟨m, hm, ?_⟩
  split <;> exact ⟨rfl, rfl⟩

private theorem free_register {net : Network α}
    (hfree : ∀ {i : Nat} {n : Node α}, net.nodes[i]? = some n → n.access = .free) {e : Element α}
    (hne : e.input ≠ e.output) {i : Nat} {n : Node α}
    (hn : (net.register e).nodes[i]? = some n) : n.access = .free := by
  obtain ⟨m, hm, -, haccess⟩ := getElem?_of_register hne hn
  exact haccess.trans (hfree hm)

/-- The node that a new element drives was unlocked, so it is driven by no other element. -/
private theorem driven_inj_register {net : Network α} (hord : net.Orderly) {e : Element α}
    (hmade : e.Made net) {k l : Nat} {f g : Element α} (hf : (net.register e).elements[k]? = some f)
    (hg : (net.register e).elements[l]? = some g) (hfd : f.kind.drives = true)
    (hgd : g.kind.drives = true) (hfg : f.driven = g.driven) : k = l := by
  have hold : ∀ {j : Nat} {f : Element α}, net.elements[j]? = some f → f.kind.drives = true →
      e.kind.drives = true → f.driven ≠ e.driven := by
    intro j f hf hfd hd hfe
    obtain ⟨n, hn, hunlocked⟩ := hmade.unlocked hd
    have hlocked := hord.locked hf hfd (hfe ▸ hn)
    rw [hunlocked] at hlocked
    cases hlocked
  -- Two old elements, the new one and an old one, or the new one twice.
  rcases getElem?_elements_register hf with hf' | ⟨rfl, rfl⟩ <;>
    rcases getElem?_elements_register hg with hg' | ⟨rfl, rfl⟩
  · exact hord.driven_inj hf' hg' hfd hgd hfg
  · exact absurd hfg (hold hf' hfd hgd)
  · exact absurd hfg.symm (hold hg' hgd hfd)
  · rfl

/-- Registering an element that fits keeps a network `WellFormed`. -/
private theorem wellFormed_register {net : Network α} (hwf : net.WellFormed) {e : Element α}
    {w : Nat} (hfits : e.Fits net w) : (net.register e).WellFormed where
  column {i n} hn := by
    rw [getElem?_register hfits.ends_ne] at hn
    obtain ⟨m, hm, rfl⟩ := Option.map_eq_some_iff.mp hn
    have hcols := hwf.column hm
    split <;> exact hcols
  fits {k f} hf := by
    rcases getElem?_elements_register hf with hf | ⟨-, rfl⟩
    · obtain ⟨w', hw'⟩ := hwf.fits hf
      exact ⟨w', fits_register hfits.ends_ne hw'⟩
    · exact ⟨w, fits_register hfits.ends_ne hfits⟩
  registered {i n} hn := by
    rw [getElem?_register hfits.ends_ne] at hn
    obtain ⟨m, hm, rfl⟩ := Option.map_eq_some_iff.mp hn
    rw [registeredAt_register]
    split
    · exact congrArg (· ++ _) (hwf.registered hm)
    · simpa using hwf.registered hm

/-! ### Replacing a node -/

/-- Another node of the same `shape` does not change the widths of nodes. -/
theorem width?_setNode {net : Network α} {i : Nat} {n n' : Node α} (hn : net.nodes[i]? = some n)
    (hshape : n'.potential.shape = n.potential.shape) (j : Nat) :
    (net.setNode i n').width? j = net.width? j := by
  unfold width?
  rw [getElem?_nodes_setNode (Array.getElem?_eq_some_iff.mp hn).1]
  split
  · rename_i hij
    subst hij
    rw [hn]
    exact congrArg some (congrArg Prod.fst hshape)
  · rfl

/-- Another node of the same `shape` and elements keeps a network `WellFormed`. -/
theorem wellFormed_setNode {net : Network α} (hwf : net.WellFormed) {i : Nat} {n n' : Node α}
    (hn : net.nodes[i]? = some n) (hshape : n'.potential.shape = n.potential.shape)
    (helements : n'.elements = n.elements) : (net.setNode i n').WellFormed := by
  have hi : i < net.nodes.size := (Array.getElem?_eq_some_iff.mp hn).1
  have hwidth := width?_setNode hn hshape
  refine ⟨fun {j m} hm => ?_, fun {k e} he => ?_, fun {j m} hm => ?_⟩
  · rw [getElem?_nodes_setNode hi] at hm
    split at hm
    · cases hm
      exact (congrArg Prod.snd hshape).trans (hwf.column hn)
    · exact hwf.column hm
  · obtain ⟨w, hw⟩ := hwf.fits he
    exact ⟨w, hw.ends_ne, by rw [hwidth]; exact hw.input, by rw [hwidth]; exact hw.output, hw.gain⟩
  · rw [getElem?_nodes_setNode hi] at hm
    split at hm
    · rename_i hij
      subst hij
      cases hm
      exact helements.trans (hwf.registered hn)
    · exact hwf.registered hm

/-- A free node that is not unlocked keeps a network `Orderly`. -/
theorem orderly_setNode {net : Network α} (hord : net.Orderly) {i : Nat} {n n' : Node α}
    (hn : net.nodes[i]? = some n) (hfree : n'.access = .free)
    (hlocked : n.isLocked = true → n'.isLocked = true) : (net.setNode i n').Orderly := by
  have hi : i < net.nodes.size := (Array.getElem?_eq_some_iff.mp hn).1
  refine ⟨fun {j m} hm => ?_, fun {k e m} he hd hm => ?_, fun he hf => hord.driven_inj he hf⟩
  · rw [getElem?_nodes_setNode hi] at hm
    split at hm
    · cases hm
      exact hfree
    · exact hord.free hm
  · rw [getElem?_nodes_setNode hi] at hm
    split at hm
    · rename_i hij
      cases hm
      exact hlocked (hord.locked he hd (hij ▸ hn))
    · exact hord.locked he hd hm

/-! ### Joining an element -/

variable [Scalar α]

/-- Joining an element registers it; a driving element then locks the node that it drives, if it
can, and synchronises it. -/
theorem addElement_cases (e : Element α) (net : Network α) :
    (e.kind.drives = false ∧ finalState (addElement e net) = net.register e) ∨
      (e.kind.drives = true ∧ finalState (addElement e net) = net.register e ∧
        ∃ cause, changeNode e.driven Node.lock (net.register e) = .error cause (net.register e)) ∨
      (e.kind.drives = true ∧ ∃ net₁, changeNode e.driven Node.lock (net.register e) = .ok () net₁ ∧
        finalState (addElement e net) = finalState (synchronise e net₁)) := by
  unfold addElement
  dsimp only
  cases hd : e.kind.drives with
  | false => exact .inl ⟨rfl, rfl⟩
  | true =>
    refine .inr ?_
    rw [if_pos rfl, bind_apply]
    cases hlock : changeNode e.driven Node.lock (net.register e) with
    | error cause net₁ =>
      obtain rfl := changeNode_eq_error hlock
      exact .inl ⟨rfl, rfl, cause, rfl⟩
    | ok u net₁ =>
      refine .inr ⟨rfl, net₁, rfl, ?_⟩
      dsimp only
      rw [bind_apply]
      cases synchronise e net₁ <;> rfl

omit [Scalar α] in
/-- What locking a node does. -/
theorem changeNode_lock_eq_ok {net net' : Network α} {i : Nat}
    (h : changeNode i Node.lock net = .ok () net') :
    ∃ n, net.nodes[i]? = some n ∧ n.access = .free ∧
      net' = net.setNode i { n with isLocked := true } := by
  obtain ⟨j, n, n', hij, hn, hn', rfl⟩ := changeNode_eq_ok_iff.mp h
  obtain rfl : i = j := by omega
  obtain ⟨hfree, rfl⟩ := Node.lock_eq_ok_iff.mp hn'
  exact ⟨n, hn, hfree, rfl⟩

omit [Scalar α] in
/-- A driving element that has been registered is one of the `drivers`. -/
theorem mem_drivers_register {net : Network α} {e : Element α} (hd : e.kind.drives = true) :
    e ∈ (net.register e).drivers :=
  mem_drivers.mpr ⟨⟨net.elements.size, Array.getElem?_push_size⟩, hd⟩

omit [Scalar α] in
/-- Nobody is inside the node that a new element drives, so it can be locked. -/
theorem exists_lock_register {net : Network α}
    (hfree : ∀ {i : Nat} {n : Node α}, net.nodes[i]? = some n → n.access = .free) {e : Element α}
    (hmade : e.Made net) (hd : e.kind.drives = true) :
    ∃ n, (net.register e).nodes[e.driven]? = some n ∧
      changeNode e.driven Node.lock (net.register e) =
        .ok () ((net.register e).setNode e.driven { n with isLocked := true }) := by
  obtain ⟨w, hfits⟩ := hmade.fits
  obtain ⟨m, hm, -⟩ := hmade.unlocked hd
  have hn : (net.register e).nodes[e.driven]? = _ := getElem?_register hfits.ends_ne e.driven
  rw [hm, Option.map_some] at hn
  exact ⟨_, hn, changeNode_eq_ok_iff.mpr
    ⟨e.driven, _, _, rfl, hn,
      Node.lock_eq_ok_iff.mpr ⟨free_register hfree hfits.ends_ne hn, rfl⟩, rfl⟩⟩

omit [Scalar α] in
/-- Nobody is inside a node after a new element has been recorded and has locked the node that it
drives. -/
theorem free_lock_register {net : Network α}
    (hfree : ∀ {i : Nat} {n : Node α}, net.nodes[i]? = some n → n.access = .free) {e : Element α}
    (hne : e.input ≠ e.output) {n : Node α} (hn : (net.register e).nodes[e.driven]? = some n)
    {j : Nat} {m : Node α}
    (hm : ((net.register e).setNode e.driven { n with isLocked := true }).nodes[j]? = some m) :
    m.access = .free := by
  rw [getElem?_nodes_setNode (Array.getElem?_eq_some_iff.mp hn).1] at hm
  split at hm
  · cases hm
    have hlocked : n.access = .free := free_register hfree hne hn
    exact hlocked
  · exact free_register hfree hne hm

omit [Scalar α] in
/-- Registering an element and locking the node that it drives keeps a network `WellFormed`. -/
theorem wellFormed_lock_register {net : Network α} (hwf : net.WellFormed) {e : Element α}
    (hmade : e.Made net) {n : Node α} (hn : (net.register e).nodes[e.driven]? = some n) :
    ((net.register e).setNode e.driven { n with isLocked := true }).WellFormed := by
  obtain ⟨w, hfits⟩ := hmade.fits
  exact wellFormed_setNode (wellFormed_register hwf hfits) hn rfl rfl

omit [Scalar α] in
/-- An element that drives a node which was unlocked and is locked now is in order. -/
private theorem orderly_lock_register {net : Network α} (hord : net.Orderly) {e : Element α}
    (hmade : e.Made net) {n : Node α} (hn : (net.register e).nodes[e.driven]? = some n) :
    ((net.register e).setNode e.driven { n with isLocked := true }).Orderly := by
  obtain ⟨w, hfits⟩ := hmade.fits
  refine ⟨free_lock_register hord.free hfits.ends_ne hn, fun {k f m} hf hfd hm => ?_,
    driven_inj_register hord hmade⟩
  rw [getElem?_nodes_setNode (Array.getElem?_eq_some_iff.mp hn).1] at hm
  split at hm
  · cases hm
    rfl
  · rename_i hne
    rcases getElem?_elements_register hf with hf | ⟨-, rfl⟩
    · obtain ⟨m', hm', hlocked, -⟩ := getElem?_of_register hfits.ends_ne hm
      exact hlocked.trans (hord.locked hf hfd hm')
    · exact absurd rfl hne

/-- **Joining an element that fits keeps a network `WellFormed`**, even if it fails half-way. -/
theorem wellFormed_addElement {net : Network α} (hwf : net.WellFormed) {e : Element α}
    (hmade : e.Made net) : (finalState (addElement e net)).WellFormed := by
  obtain ⟨w, hfits⟩ := hmade.fits
  have hreg := wellFormed_register hwf hfits
  rcases addElement_cases e net with ⟨-, h⟩ | ⟨-, h, -⟩ | ⟨hd, net₁, hlock, h⟩
  · exact h ▸ hreg
  · exact h ▸ hreg
  · obtain ⟨n, hn, -, rfl⟩ := changeNode_lock_eq_ok hlock
    have hwf₁ := wellFormed_lock_register hwf hmade hn
    rw [h]
    exact hwf₁.of_frame_eq
      (keeps_synchronise hwf₁ (mem_drivers_register hd) _ rfl).symm

/-- **Joining an element that fits keeps a network `Orderly`**, whether it succeeds or fails. -/
theorem orderly_addElement {net : Network α} (hwf : net.WellFormed) (hord : net.Orderly)
    {e : Element α} (hmade : e.Made net) : (finalState (addElement e net)).Orderly := by
  obtain ⟨w, hfits⟩ := hmade.fits
  rcases addElement_cases e net with ⟨hd, h⟩ | ⟨hd, -, cause, hfail⟩ | ⟨hd, net₁, hlock, h⟩
  · rw [h]
    refine ⟨free_register hord.free hfits.ends_ne, fun {k f n} hf hfd hn => ?_,
      driven_inj_register hord hmade⟩
    rcases getElem?_elements_register hf with hf | ⟨-, rfl⟩
    · obtain ⟨m, hm, hlocked, -⟩ := getElem?_of_register hfits.ends_ne hn
      exact hlocked.trans (hord.locked hf hfd hm)
    · rw [hfd] at hd
      cases hd
  · obtain ⟨n, -, hok⟩ := exists_lock_register hord.free hmade hd
    rw [hok] at hfail
    cases hfail
  · obtain ⟨n, hn, -, rfl⟩ := changeNode_lock_eq_ok hlock
    rw [h]
    exact (orderly_lock_register hord hmade hn).of_frame_eq
      (keeps_synchronise (wellFormed_lock_register hwf hmade hn) (mem_drivers_register hd) _
        rfl).symm

end Network

end FluxBalance
