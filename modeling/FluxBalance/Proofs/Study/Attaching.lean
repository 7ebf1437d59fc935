import FluxBalance.Proofs.Study.Reachable

/-!
# Elements that cannot be attached

An element is made against a network and then joined to it. While it is made, nothing changes, so if
that fails there is no trace of it. But joining records a driving element before it locks the node
that is to be driven, and locks this node before it derives its potential. Neither is taken back: if
somebody is inside the driven node, the element stays in the network without a node that it has
locked; if somebody writes to the dominant node, the driven node stays locked at the potential that
it had. These are the only ways in which joining fails.

## Main definitions and results

* `Abandoned`: what is left of a driving element that cannot be attached;
* `abandoned_of_add`: adding an element fails without a change, or the element is `Abandoned`;
* `exists_failed_add_not_undone`: between the nodes of `attended` this happens.
-/

namespace FluxBalance

open FluxBalance.Computation

variable {α : Type} [Scalar α]

namespace Network

variable {net after : Network α} {e : Element α} {cause : Error α}

omit [Scalar α] in
/-- Locking a node fails only because someone is inside it. -/
private theorem changeNode_lock_eq_error {i : Nat} {n : Node α} (hn : net.nodes[i]? = some n)
    (h : changeNode i Node.lock net = .error cause after) :
    ∃ conflict, n.access.enterExclusive = .error conflict ∧ cause = .borrow conflict := by
  have hchanged : changeNode i Node.lock net =
      match n.lock with
      | .ok n' => .ok () (net.setNode i n')
      | .error cause => .error cause net := by
    unfold changeNode changed
    rw [node_natCast_eq_ok_iff.mpr hn]
    cases hlock : n.lock <;> simp [hlock, bind, Except.bind, pure, Except.pure]
  rw [hchanged] at h
  cases henter : n.access.enterExclusive with
  | ok a =>
    have hfree := Access.enterExclusive_isOk_iff.mp (by rw [henter]; rfl)
    rw [Node.lock_eq_ok_iff.mpr ⟨hfree, rfl⟩] at h
    cases h
  | error conflict =>
    have hlock : n.lock = .error (.borrow conflict) := Node.change_eq_error henter
    rw [hlock] at h
    cases h
    exact ⟨conflict, rfl, rfl⟩

/-- A driving element whose driven node is free fails to be synchronised only if somebody writes to
its `dominant` node. -/
private theorem exclusive_of_synchronise (hwf : net.WellFormed) (he : e ∈ net.drivers)
    (hfree : ∀ {n : Node α}, net.nodes[e.driven]? = some n → n.access = .free)
    (h : synchronise e net = .error cause after) :
    cause = .borrow .exclusive ∧ ∃ m, net.nodes[e.dominant]? = some m ∧ m.access = .exclusive := by
  obtain ⟨⟨k, hk⟩, -⟩ := mem_drivers.mp he
  obtain ⟨w, hfits⟩ := hwf.fits hk
  obtain ⟨m, hm, -⟩ := width?_eq_some.mp hfits.dominant
  have hexclusive : m.access = .exclusive := by
    by_contra hne
    have hopen : Open e net := by
      refine ⟨fun hm' => ?_, hfree⟩
      rw [hm] at hm'
      cases hm'
      exact hne
    obtain ⟨changed, net', hok⟩ := (exists_synchronise_iff hwf he).mpr hopen
    rw [hok] at h
    cases h
  refine ⟨?_, m, hm, hexclusive⟩
  have hread : net.potential e.dominant = .error (.borrow .exclusive) := by
    unfold potential
    rw [node_natCast_eq_ok_iff.mpr hm]
    change m.read = _
    unfold Node.read Node.inside Node.enter
    rw [hexclusive]
    rfl
  unfold synchronise at h
  rw [bind_apply, NetworkAction.look, hread] at h
  cases h
  rfl

/-- What is left of a driving element that cannot be attached, and the error. -/
inductive Abandoned (net : Network α) (e : Element α) : Error α → Network α → Prop
  /-- The element has been recorded, but somebody is inside the node that it should drive. -/
  | unlocked {n : Node α} {conflict : BorrowConflict} : net.nodes[e.driven]? = some n →
    n.access.enterExclusive = .error conflict →
    Abandoned net e (.borrow conflict) (net.register e)
  /-- The node has been locked besides, but somebody writes to the `dominant` one. -/
  | locked {n m : Node α} : (net.register e).nodes[e.driven]? = some n → n.isLocked = false →
    net.nodes[e.dominant]? = some m → m.access = .exclusive →
    Abandoned net e (.borrow .exclusive)
      ((net.register e).setNode e.driven { n with isLocked := true })

omit [Scalar α] in
/-- The element stays in the network. -/
private theorem Abandoned.elements_eq (h : Abandoned net e cause after) :
    after.elements = net.elements.push e := by
  cases h <;> rfl

/-- **An element that has been made fails to be joined only if it is a driving one that cannot be
attached.** -/
theorem abandoned_of_addElement (hwf : net.WellFormed) (hmade : e.Made net)
    (h : addElement e net = .error cause after) :
    e.kind.drives = true ∧ Abandoned net e cause after := by
  obtain ⟨w, hfits⟩ := hmade.fits
  unfold addElement at h
  dsimp only at h
  cases hd : e.kind.drives with
  | false =>
    rw [hd] at h
    cases h
  | true =>
  refine ⟨rfl, ?_⟩
  -- Locking the driven node comes first and deriving its potential second; each may fail.
  rw [if_pos hd] at h
  rcases bind_eq_error.mp h with hlock | ⟨_, net₁, hlock, h⟩
  · -- Somebody is inside the driven node.
    obtain rfl := changeNode_eq_error hlock
    obtain ⟨n, hn, -⟩ := width?_eq_some.mp (fits_register hfits.ends_ne hfits).driven
    obtain ⟨m, hm, -, haccess⟩ := getElem?_of_register hfits.ends_ne hn
    obtain ⟨conflict, hconflict, rfl⟩ := changeNode_lock_eq_error hn hlock
    exact .unlocked hm (haccess ▸ hconflict)
  · -- The driven node has been locked.
    obtain ⟨n, hn, hfree, rfl⟩ := changeNode_lock_eq_ok hlock
    have hlt : e.driven < (net.register e).nodes.size := (Array.getElem?_eq_some_iff.mp hn).1
    rcases bind_eq_error.mp h with hsync | ⟨_, _, _, h⟩
    · obtain rfl := synchronise_eq_error hsync
      obtain ⟨rfl, d, hdominant, hexclusive⟩ := exclusive_of_synchronise
        (wellFormed_lock_register hwf hmade hn) (mem_drivers_register hd)
        (fun hn' => by
          rw [getElem?_nodes_setNode hlt, if_pos rfl] at hn'
          cases hn'
          exact hfree) hsync
      rw [getElem?_nodes_setNode hlt, if_neg hfits.dominant_ne_driven.symm] at hdominant
      obtain ⟨m, hm, -, haccess⟩ := getElem?_of_register hfits.ends_ne hdominant
      obtain ⟨k, hk, hlocked, -⟩ := getElem?_of_register hfits.ends_ne hn
      obtain ⟨k', hk', hunlocked⟩ := hmade.unlocked hd
      rw [hk] at hk'
      cases hk'
      exact .locked hn (hlocked.trans hunlocked) hm (haccess ▸ hexclusive)
    · cases h

/-- **An element that fails to be added has changed nothing, unless it is a driving element that has
been made and cannot be attached.** It is left in the network then. -/
theorem abandoned_of_add {allowed : Move α → Prop} (hnet : Reachable allowed net)
    {spec : ElementSpec α} (hspec : spec.Regular) {catalogue : Catalogue α} (hc : catalogue.Regular)
    {modelType : Option String} {input output : Int} {gain : Gain α}
    (h : spec.add catalogue modelType input output gain net = .error cause after) :
    (spec.make catalogue modelType net input output gain = .error cause ∧ after = net) ∨
      ∃ e, spec.make catalogue modelType net input output gain = .ok e ∧ e.kind.drives = true ∧
        Abandoned net e cause after ∧ after.elements = net.elements.push e := by
  unfold ElementSpec.add at h
  rw [bind_apply, NetworkAction.look] at h
  cases hmake : spec.make catalogue modelType net input output gain with
  | error cause' =>
    rw [hmake] at h
    cases h
    exact .inl ⟨rfl, rfl⟩
  | ok e =>
    rw [hmake] at h
    obtain ⟨hd, habandoned⟩ := abandoned_of_addElement (wellFormed_of_reachable hnet)
      (ElementSpec.made_of_make hspec hc hmake) h
    exact .inr ⟨e, rfl, hd, habandoned, habandoned.elements_eq⟩

/-- A grounded node, and another one that somebody reads. -/
def attended : Network Rat := Move.after grounded (.enter .shared 1)

private theorem reachable_attended : Reachable (fun _ => True) attended :=
  have hgrounded : Reachable (fun _ => True) grounded := reachable_grounded.mono fun _ _ => trivial
  .moved hgrounded trivial trivial

/-- A driving element between the two is recorded, and the node that it should drive is
not locked. -/
private theorem add_attended :
    ∃ after, (ElementSpec.kind .potentialDrive).add [] none 0 1 (.number 1)
    attended = .error (.borrow (.readers 1)) after ∧ after.elements.size = 1 ∧
      after.nodes[1]?.map (·.isLocked) = some false :=
  ⟨_, rfl, rfl, rfl⟩

/-- Adding a drive to `attended` fails, and the element is left in the list, `Abandoned`. -/
theorem abandoned_attended : ∃ e after,
    (ElementSpec.kind .potentialDrive).add [] none 0 1 (.number 1) attended =
      .error (.borrow (.readers 1)) after ∧
      Abandoned attended e (.borrow (.readers 1)) after ∧
      after.elements = attended.elements.push e := by
  have hspec : (ElementSpec.kind .potentialDrive : ElementSpec Rat).Regular := trivial
  have hregular : Catalogue.Regular ([] : Catalogue Rat) := by simp [Catalogue.Regular]
  obtain ⟨after, h, -, -⟩ := add_attended
  rcases abandoned_of_add reachable_attended hspec hregular h with
    ⟨hmake, -⟩ | ⟨e, -, -, habandoned, helements⟩
  · -- The element can be made.
    have hmade : ((ElementSpec.kind .potentialDrive).make [] none attended 0 1
        (.number 1)).isOk = true := rfl
    rw [hmake] at hmade
    cases hmade
  · exact ⟨e, after, h, habandoned, helements⟩

/-- **Adding an element may fail and change the network**, while somebody is inside a node. -/
theorem exists_failed_add_not_undone :
    ¬ ∀ (net after : Network Rat) (spec : ElementSpec Rat) (catalogue : Catalogue Rat)
      (modelType : Option String) (input output : Int) (gain : Gain Rat) (cause : Error Rat),
      Reachable (fun _ => True) net → spec.Regular → catalogue.Regular →
      spec.add catalogue modelType input output gain net = .error cause after →
      after.elements = net.elements := by
  have hspec : (ElementSpec.kind .potentialDrive : ElementSpec Rat).Regular := trivial
  have hregular : Catalogue.Regular ([] : Catalogue Rat) := by simp [Catalogue.Regular]
  obtain ⟨after, h, hsize, -⟩ := add_attended
  intro hall
  rw [hall attended after _ _ _ _ _ _ _ reachable_attended hspec hregular h] at hsize
  cases hsize

end Network

end FluxBalance
