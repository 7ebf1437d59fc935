import FluxBalance.Model.Build
import FluxBalance.Proofs.Study.Assignments
import FluxBalance.Proofs.Study.Joining
import FluxBalance.Proofs.Study.Loops

/-!
# The order in which elements are added

Constructors that look at the widths of nodes only make the same elements in every order, apart from
the ends that driving elements drive. So if adding elements succeeds in one order, then in another
order it either succeeds or stops at a driving element both of whose nodes are locked by then. That
is a matter of the locks alone (`lockStep`), and two additions next to each other can change places
unless they are driving elements which share a node. Networks that are built in different orders are
`Reordered`, so they are solved by the same assignments of potentials.

## Main definitions and results

* `Request`, `addAll`: requests for elements, added one after the other;
* `Request.lockStep`, `addAll_cases`: the locks foresee how this ends;
* `addAll_perm`: the order matters for the locks only.
-/

namespace FluxBalance

open FluxBalance.Computation Network

variable {α : Type} [Scalar α]

/-! ### Requests -/

/-- A request for an element between two nodes. -/
structure Request (α : Type) where
  spec : ElementSpec α
  input : Int
  output : Int
  gain : Gain α

namespace Request

/-- Adds the element and answers its position. -/
def add (c : Catalogue α) (modelType : Option String) (r : Request α) : NetworkAction α Nat :=
  r.spec.add c modelType r.input r.output r.gain

/-- The element that is requested, if it can be made between nodes of these widths; which end it
drives is not decided yet. -/
def sketch (c : Catalogue α) (modelType : Option String) (net : Network α) (r : Request α) :
    Option (Element α) :=
  (r.spec.make c modelType net.bare r.input r.output r.gain).toOption

/-- The constructor makes elements of the kinds, and looks at widths only. -/
structure Valid (r : Request α) : Prop where
  regular : r.spec.Regular
  uniform : r.spec.Uniform

/-- The requests are not for driving elements that share a node. -/
def Apart (c : Catalogue α) (modelType : Option String) (net : Network α) (r s : Request α) :
    Prop :=
  ∀ e ∈ r.sketch c modelType net, ∀ f ∈ s.sketch c modelType net,
    e.kind.drives = true → f.kind.drives = true → ∀ i, e.Touches i → ¬f.Touches i

end Request

/-- Adds elements one after the other. -/
def addAll (c : Catalogue α) (modelType : Option String) : List (Request α) → NetworkAction α Unit
  | [] => return ()
  | r :: rs => do
    let _ ← r.add c modelType
    addAll c modelType rs

/-- Adding the elements stops at a driving element both of whose nodes are locked by then; what has
been added before stays. -/
def Refused (c : Catalogue α) (modelType : Option String) (net : Network α)
    (rs : List (Request α)) : Prop :=
  ∃ before r after e net', rs = before ++ r :: after ∧ addAll c modelType before net = .ok () net' ∧
    r.sketch c modelType net = some e ∧ e.kind.drives = true ∧ net'.locked e.input = true ∧
    net'.locked e.output = true ∧
    addAll c modelType rs net = .error (.element (.bothLocked e.input e.output)) net'

/-! ### Locks -/

/-- The locks after a driving element has been added. One of its nodes has to be unlocked. -/
def Element.lockStep (locked : Nat → Bool) (e : Element α) : Option (Nat → Bool) :=
  if e.kind.drives then
    if locked e.input && locked e.output then none
    else some (Function.update locked (if locked e.output then e.input else e.output) true)
  else some locked

/-- The locks after the requested element has been added. -/
def Request.lockStep (c : Catalogue α) (modelType : Option String) (net : Network α)
    (locked : Nat → Bool) (r : Request α) : Option (Nat → Bool) :=
  r.sketch c modelType net >>= Element.lockStep locked

variable {c : Catalogue α} {modelType : Option String} {net net' : Network α}

omit [Scalar α] in
/-- A driving element is refused between locked nodes, and otherwise oriented so that it drives an
unlocked one. -/
private theorem Element.orient_cases (net : Network α) (e : Element α) :
    (e.kind.drives = true ∧ net.locked e.input = true ∧ net.locked e.output = true ∧
      e.orient net = .error (.element (.bothLocked e.input e.output)) ∧
      e.lockStep net.locked = none) ∨
    ∃ f, e.orient net = .ok f ∧ f.unoriented = e.unoriented ∧
      e.lockStep net.locked = some fun i => net.locked i || f.locks i := by
  unfold orient lockStep
  cases hd : e.kind.drives with
  | false =>
    refine .inr ⟨e, rfl, rfl, ?_⟩
    simp [locks, hd]
  | true =>
    rw [if_pos rfl, if_pos rfl]
    cases hlocked : net.locked e.input && net.locked e.output with
    | true =>
      obtain ⟨hi, ho⟩ := Bool.and_eq_true_iff.mp hlocked
      exact .inl ⟨rfl, hi, ho, rfl, rfl⟩
    | false =>
      refine .inr ⟨_, rfl, rfl, ?_⟩
      rw [if_neg Bool.false_ne_true]
      congr 1
      funext i
      rw [Function.update_apply]
      cases net.locked e.output <;> simp [locks, driven, hd, eq_comm, Bool.or_comm]

omit [Scalar α] in
private theorem Element.lockStep_of_not_drives {e : Element α} (h : e.kind.drives = false)
    (locked : Nat → Bool) : e.lockStep locked = some locked := by
  rw [lockStep, h]
  rfl

omit [Scalar α] in
/-- A driving element locks one of its nodes, or it is refused. -/
private theorem Element.lockStep_cases {e : Element α} (h : e.kind.drives = true)
    (locked : Nat → Bool) : e.lockStep locked = none ∨
      ∃ k, e.Touches k ∧ e.lockStep locked = some (Function.update locked k true) := by
  rw [lockStep, h, if_pos rfl]
  split
  · exact .inl rfl
  · refine .inr ⟨_, ?_, rfl⟩
    split
    · exact .inl rfl
    · exact .inr rfl

omit [Scalar α] in
/-- What a driving element does to the locks does not depend on nodes that it does not touch. -/
private theorem Element.lockStep_update {e : Element α} (h : e.kind.drives = true) {k : Nat}
    (hk : ¬e.Touches k) (locked : Nat → Bool) :
    e.lockStep (Function.update locked k true) =
      (e.lockStep locked).map fun l => Function.update l k true := by
  have hi : e.input ≠ k := fun hi => hk (.inl hi.symm)
  have ho : e.output ≠ k := fun ho => hk (.inr ho.symm)
  rw [lockStep, lockStep, h, if_pos rfl, if_pos rfl, Function.update_of_ne hi,
    Function.update_of_ne ho]
  split
  · rfl
  · rw [Option.map_some, Function.update_comm]
    split
    · exact hi.symm
    · exact ho.symm

omit [Scalar α] in
/-- Two elements can change places unless they are driving elements that share a node. -/
private theorem Element.lockStep_comm {e f : Element α} (h : e.kind.drives = true →
    f.kind.drives = true → ∀ i, e.Touches i → ¬f.Touches i) (locked : Nat → Bool) :
    (e.lockStep locked >>= fun l => f.lockStep l) =
      f.lockStep locked >>= fun l => e.lockStep l := by
  cases he : e.kind.drives with
  | false => simp [lockStep_of_not_drives he]
  | true =>
  cases hf : f.kind.drives with
  | false => simp [lockStep_of_not_drives hf]
  | true =>
  have hef := h he hf
  rcases lockStep_cases he locked with hen | ⟨k, hk, hek⟩ <;>
    rcases lockStep_cases hf locked with hfn | ⟨m, hm, hfm⟩
  · rw [hen, hfn]
    rfl
  · -- The element is refused whether or not the other one comes first.
    have hafter := lockStep_update he (fun hm' => hef m hm' hm) locked
    rw [hen] at hafter ⊢
    rw [hfm]
    exact hafter.symm
  · have hafter := lockStep_update hf (hef k hk) locked
    rw [hfn] at hafter ⊢
    rw [hek]
    exact hafter
  · have hne : k ≠ m := by
      rintro rfl
      exact hef k hk hm
    have hafter := lockStep_update he (fun hm' => hef m hm' hm) locked
    have hafter' := lockStep_update hf (hef k hk) locked
    rw [hek] at hafter ⊢
    rw [hfm] at hafter' ⊢
    refine hafter'.trans (Eq.trans ?_ hafter.symm)
    exact congrArg some (Function.update_comm hne.symm _ _ _)

/-! ### One request -/

/-- What is requested depends on the widths of the network only. -/
private theorem Request.sketch_congr {a b : Network α} (h : ∀ i, a.width? i = b.width? i) :
    Request.sketch c modelType a = Request.sketch c modelType b := by
  funext r
  rw [sketch, sketch, bare_eq h]

/-- What a request locks depends on the widths of the nodes only. -/
private theorem Request.lockStep_congr {a b : Network α} (h : ∀ i, a.width? i = b.width? i) :
    Request.lockStep c modelType a = Request.lockStep c modelType b := by
  unfold lockStep
  rw [sketch_congr h]

/-- An element is added as it is sketched, with the end that the locks leave to it. -/
private theorem Request.add_eq (hc : c.Uniform) {r : Request α} (hr : r.Valid) :
    r.add c modelType net =
      match r.spec.make c modelType net.bare r.input r.output r.gain >>= Element.orient net with
      | .ok f => addElement f net
      | .error cause => .error cause net := by
  rw [add, ElementSpec.add, bind_apply, NetworkAction.look, ElementSpec.make_eq hr.uniform hc]
  cases r.spec.make c modelType net.bare r.input r.output r.gain >>= Element.orient net <;> rfl

/-- What cannot be made is not added. -/
private theorem Request.add_eq_error (hc : c.Uniform) {r : Request α} (hr : r.Valid)
    (h : r.sketch c modelType net = none) : ∃ cause, r.add c modelType net = .error cause net := by
  rw [add_eq hc hr]
  unfold sketch at h
  cases hbare : r.spec.make c modelType net.bare r.input r.output r.gain with
  | ok e =>
    rw [hbare] at h
    cases h
  | error cause => exact ⟨cause, rfl⟩

/-- The `sketch` of a request is what is made of it in the `bare` network. -/
theorem Request.make_of_sketch {r : Request α} {e : Element α}
    (h : r.sketch c modelType net = some e) :
    r.spec.make c modelType net.bare r.input r.output r.gain = .ok e := by
  unfold sketch at h
  cases hbare : r.spec.make c modelType net.bare r.input r.output r.gain with
  | ok f =>
    rw [hbare] at h
    cases h
    rfl
  | error cause =>
    rw [hbare] at h
    cases h

/-- **What can be made is added**, unless it drives and both of its nodes are locked. -/
theorem Request.add_cases (hc : c.Regular) (hc' : c.Uniform) {r : Request α} (hr : r.Valid)
    (hwf : net.WellFormed) (hord : net.Orderly) {e : Element α}
    (h : r.sketch c modelType net = some e) :
    (e.kind.drives = true ∧ net.locked e.input = true ∧ net.locked e.output = true ∧
      r.add c modelType net = .error (.element (.bothLocked e.input e.output)) net ∧
      r.lockStep c modelType net net.locked = none) ∨
    ∃ f net', f.unoriented = e.unoriented ∧ f.Made net ∧
      r.add c modelType net = .ok net.elements.size net' ∧ Extends f net net' ∧
      r.lockStep c modelType net net.locked = some net'.locked := by
  have hbare := make_of_sketch h
  have hstep : r.lockStep c modelType net net.locked = e.lockStep net.locked := by
    rw [lockStep, h]
    rfl
  rw [hstep, add_eq hc' hr, hbare]
  rcases e.orient_cases net with ⟨hd, hi, ho, horient, hlock⟩ | ⟨f, horient, hf, hlock⟩
  · refine .inl ⟨hd, hi, ho, ?_, hlock⟩
    dsimp only [bind, Except.bind]
    rw [horient]
  · have hmake : r.spec.make c modelType net r.input r.output r.gain = .ok f := by
      rw [ElementSpec.make_eq hr.uniform hc', hbare]
      exact horient
    have hmade := ElementSpec.made_of_make hr.regular hc hmake
    obtain ⟨net', hok, hext⟩ := exists_addElement hwf hord.free hmade
    refine .inr ⟨f, net', hf, hmade, ?_, hext, ?_⟩
    · dsimp only [bind, Except.bind]
      rw [horient]
      exact hok
    · rw [hlock]
      exact congrArg some (funext fun i => (hext.locked i).symm)

/-! ### All requests -/

/-- What adding elements one after the other leaves. -/
structure Grown (c : Catalogue α) (modelType : Option String) (rs : List (Request α))
    (net net' : Network α) : Prop where
  reachable : Network.Reachable (fun m => ¬m.Enters) net'
  made : ∀ r ∈ rs, ∃ e, r.sketch c modelType net = some e
  width : ∀ i, net'.width? i = net.width? i
  elements : net'.elements.toList.map Element.unoriented =
    (net.elements.toList ++ rs.filterMap (Request.sketch c modelType net)).map Element.unoriented
  boundary : ∀ i, net'.Boundary i ↔ net.Boundary i
  potentialAt : ∀ {i : Nat}, net.Boundary i → ∀ c, net'.potentialAt i c = net.potentialAt i c
  locks : rs.foldlM (Request.lockStep c modelType net) net.locked = some net'.locked

theorem Grown.nil (h : Network.Reachable (fun m => ¬m.Enters) net) :
    Grown c modelType [] net net :=
  ⟨h, by simp, fun _ => rfl, by simp, fun _ => .rfl, fun _ _ => rfl, rfl⟩

/-- One request comes before those that a network has `Grown` by. -/
theorem Grown.cons {r : Request α} {rs : List (Request α)} {net₁ : Network α} {e f : Element α}
    (hsketch : r.sketch c modelType net = some e) (hf : f.unoriented = e.unoriented)
    (hmade : f.Made net) (hext : Extends f net net₁)
    (hlock : r.lockStep c modelType net net.locked = some net₁.locked)
    (h : Grown c modelType rs net₁ net') : Grown c modelType (r :: rs) net net' where
  reachable := h.reachable
  made := List.forall_mem_cons.mpr ⟨⟨e, hsketch⟩, Request.sketch_congr hext.width ▸ h.made⟩
  width i := (h.width i).trans (hext.width i)
  elements := by
    rw [h.elements, hext.elements, Request.sketch_congr hext.width, Array.toList_push,
      List.filterMap_cons_some hsketch]
    simp [hf]
  boundary i := (h.boundary i).trans (hext.boundary_iff hmade)
  potentialAt hi c :=
    (h.potentialAt ((hext.boundary_iff hmade).mpr hi) c).trans
      (hext.potentialAt_of_locked hmade (Network.boundary_iff.mp hi).1 c)
  locks := by
    rw [List.foldlM_cons, hlock, ← Request.lockStep_congr hext.width]
    exact h.locks

/-- After a request that succeeds the others are added. -/
private theorem addAll_cons_of_ok {r : Request α} (rs : List (Request α)) {net₁ : Network α}
    {k : Nat} (h : r.add c modelType net = .ok k net₁) :
    addAll c modelType (r :: rs) net = addAll c modelType rs net₁ := by
  rw [addAll, bind_apply, h]

private theorem addAll_cons_of_error {r : Request α} (rs : List (Request α)) {cause : Error α}
    (h : r.add c modelType net = .error cause net) :
    addAll c modelType (r :: rs) net = .error cause net := by
  rw [addAll, bind_apply, h]

/-- Where a later element is `Refused`, so is the whole list. -/
theorem Refused.cons {r : Request α} {rs : List (Request α)} {net₁ : Network α} {k : Nat}
    (hadd : r.add c modelType net = .ok k net₁) (hwidth : ∀ i, net₁.width? i = net.width? i)
    (h : Refused c modelType net₁ rs) : Refused c modelType net (r :: rs) := by
  obtain ⟨before, s, after, e, net', rfl, hbefore, hsketch, hd, hi, ho, hall⟩ := h
  refine ⟨r :: before, s, after, e, net', rfl, ?_, ?_, hd, hi, ho, ?_⟩
  · rw [addAll_cons_of_ok before hadd]
    exact hbefore
  · rw [← Request.sketch_congr hwidth]
    exact hsketch
  · rw [addAll_cons_of_ok _ hadd]
    exact hall

/-- **Adding elements one after the other** either succeeds, and then the locks are as foreseen, or
it fails; then the locks foresee that, and either some element cannot be made in any order or the
failure is that both nodes of a driving element are locked. -/
theorem addAll_cases (hc : c.Regular) (hc' : c.Uniform) :
    ∀ {rs : List (Request α)} {net : Network α}, (∀ r ∈ rs, r.Valid) →
      Network.Reachable (fun m => ¬m.Enters) net →
      (∃ net', addAll c modelType rs net = .ok () net' ∧ Grown c modelType rs net net') ∨
      ((∃ cause net', addAll c modelType rs net = .error cause net') ∧
        rs.foldlM (Request.lockStep c modelType net) net.locked = none ∧
        ((∃ r ∈ rs, r.sketch c modelType net = none) ∨ Refused c modelType net rs))
  | [], net, _, hnet => .inl ⟨net, rfl, .nil hnet⟩
  | r :: rs, net, hrs, hnet => by
    obtain ⟨hr, hrs⟩ := List.forall_mem_cons.mp hrs
    cases hsketch : r.sketch c modelType net with
    | none =>
      -- Whether an element can be sketched depends on widths alone, so no order helps.
      obtain ⟨cause, hadd⟩ := Request.add_eq_error hc' hr hsketch
      refine .inr ⟨⟨cause, net, addAll_cons_of_error rs hadd⟩, ?_,
        .inl ⟨r, List.mem_cons_self, hsketch⟩⟩
      rw [List.foldlM_cons, Request.lockStep, hsketch]
      rfl
    | some e =>
      rcases Request.add_cases hc hc' hr (wellFormed_of_reachable hnet) (orderly_of_reachable hnet)
        hsketch with ⟨hd, hi, ho, hadd, hlock⟩ | ⟨f, net₁, hf, hmade, hadd, hext, hlock⟩
      · have hall := addAll_cons_of_error rs hadd
        refine .inr ⟨⟨_, _, hall⟩, ?_,
          .inr ⟨[], r, rs, e, net, rfl, rfl, hsketch, hd, hi, ho, hall⟩⟩
        rw [List.foldlM_cons, hlock]
        rfl
      · have hnet₁ : Network.Reachable (fun m => ¬m.Enters) net₁ := by
          have hmove :
              (Move.addElement r.spec c modelType r.input r.output r.gain).after net = net₁ :=
            congrArg finalState hadd
          exact hmove ▸ .moved hnet ⟨hr.regular, hc⟩ id
        rcases addAll_cases hc hc' hrs hnet₁ with
          ⟨net', hok, hgrown⟩ | ⟨⟨cause, net', herror⟩, hnone, hwhy⟩
        · exact .inl ⟨net', (addAll_cons_of_ok rs hadd).trans hok,
            hgrown.cons hsketch hf hmade hext hlock⟩
        · refine .inr ⟨⟨cause, net', (addAll_cons_of_ok rs hadd).trans herror⟩, ?_, ?_⟩
          · rw [List.foldlM_cons, hlock, ← Request.lockStep_congr hext.width]
            exact hnone
          · rcases hwhy with ⟨s, hs, hnot⟩ | hrefused
            · exact .inl ⟨s, List.mem_cons_of_mem r hs, Request.sketch_congr hext.width ▸ hnot⟩
            · exact .inr (hrefused.cons hadd hext.width)

/-! ### Other orders -/

/-- The list comes about by exchanging neighbours that are so related. -/
inductive Rearranged {β : Type} (R : β → β → Prop) : List β → List β → Prop
  | refl (xs : List β) : Rearranged R xs xs
  | swap (xs : List β) {x y : β} (ys : List β) :
    R x y → Rearranged R (xs ++ x :: y :: ys) (xs ++ y :: x :: ys)
  | trans {xs ys zs : List β} : Rearranged R xs ys → Rearranged R ys zs → Rearranged R xs zs

/-- Requests that are not for driving elements which share a node change places without changing the
locks in the end. -/
private theorem Request.lockStep_comm {r s : Request α} (h : r.Apart c modelType net s)
    (locked : Nat → Bool) :
    (r.lockStep c modelType net locked >>= fun l => s.lockStep c modelType net l) =
      s.lockStep c modelType net locked >>= fun l => r.lockStep c modelType net l := by
  unfold lockStep
  cases hr : r.sketch c modelType net with
  | none => cases s.sketch c modelType net >>= Element.lockStep locked <;> rfl
  | some e =>
    cases hs : s.sketch c modelType net with
    | none => cases some e >>= Element.lockStep locked <;> rfl
    | some f => exact Element.lockStep_comm (h e hr f hs) locked

/-- Requests that are `Apart` lock the same nodes in either order. -/
private theorem Rearranged.foldlM_lockStep {rs rs' : List (Request α)}
    (h : Rearranged (Request.Apart c modelType net) rs rs') (locked : Nat → Bool) :
    rs.foldlM (Request.lockStep c modelType net) locked =
      rs'.foldlM (Request.lockStep c modelType net) locked := by
  induction h generalizing locked with
  | refl => rfl
  | trans _ _ ih ih' => exact (ih locked).trans (ih' locked)
  | swap xs ys hxy =>
    rw [List.foldlM_append, List.foldlM_append]
    refine congrArg _ (funext fun l => ?_)
    simp only [List.foldlM_cons]
    rw [← bind_assoc, ← bind_assoc, Request.lockStep_comm hxy]

/-- Networks that are built in different orders differ in order and orientation. -/
private theorem Grown.reordered {rs rs' : List (Request α)} (hperm : rs.Perm rs')
    {net₁ net₂ : Network α} (h₁ : Grown c modelType rs net net₁)
    (h₂ : Grown c modelType rs' net net₂) :
    net₁.Reordered net₂ where
  width i := (h₁.width i).trans (h₂.width i).symm
  elements := by
    rw [h₁.elements, h₂.elements]
    exact ((hperm.filterMap _).append_left _).map _
  boundary i := (h₁.boundary i).trans (h₂.boundary i).symm

/-- Adding all requests makes a network `Grown` by them. -/
theorem grown_of_addAll (hc : c.Regular) (hc' : c.Uniform) {rs : List (Request α)}
    (hrs : ∀ r ∈ rs, r.Valid) (hnet : Network.Reachable (fun m => ¬m.Enters) net)
    (h : addAll c modelType rs net = .ok () net') : Grown c modelType rs net net' := by
  rcases addAll_cases hc hc' hrs hnet with ⟨net'', hok, hgrown⟩ | ⟨⟨cause, net'', herror⟩, -⟩
  · rw [hok] at h
    cases h
    exact hgrown
  · rw [herror] at h
    cases h

/-- If adding elements succeeds in one order, it succeeds in another one or is `Refused` there. -/
private theorem exists_addAll_or_refused (hc : c.Regular) (hc' : c.Uniform)
    {rs rs' : List (Request α)} (hrs : ∀ r ∈ rs, r.Valid) (hperm : rs.Perm rs')
    (hnet : Network.Reachable (fun m => ¬m.Enters) net)
    (h : addAll c modelType rs net = .ok () net') :
    (∃ net₂, addAll c modelType rs' net = .ok () net₂) ∨ Refused c modelType net rs' := by
  have hrs' : ∀ r ∈ rs', r.Valid := fun r hr => hrs r (hperm.mem_iff.mpr hr)
  rcases addAll_cases hc hc' hrs' hnet with ⟨net₂, hok, -⟩ | ⟨-, -, ⟨r, hr, hnot⟩ | hrefused⟩
  · exact .inl ⟨net₂, hok⟩
  · -- In the first order every element was made.
    obtain ⟨e, hsketch⟩ := (grown_of_addAll hc hc' hrs hnet h).made r (hperm.mem_iff.mpr hr)
    rw [hsketch] at hnot
    cases hnot
  · exact .inr hrefused

/-- Networks that are built in different orders have the same solutions. -/
theorem Grown.solves [Scalar.Exact α] {rs rs' : List (Request α)} (hperm : rs.Perm rs')
    {net₁ net₂ : Network α} (h₁ : Grown c modelType rs net net₁)
    (h₂ : Grown c modelType rs' net net₂) {V : Nat → Nat → α} (h : net₁.Solves V) :
    net₂.Solves V := by
  refine (h₁.reordered hperm h₂).solves (wellFormed_of_reachable h₁.reachable)
    (wellFormed_of_reachable h₂.reachable) (orderly_of_reachable h₁.reachable)
    (orderly_of_reachable h₂.reachable) (resolving_of_reachable h₁.reachable)
    (resolving_of_reachable h₂.reachable) (fun {i} hi c => ?_) h
  have hi := (h₁.boundary i).mp hi
  exact (h₁.potentialAt hi c).trans (h₂.potentialAt hi c).symm

/-- **The order in which elements are added matters for locks only.** If adding elements succeeds in
one order, then in another order it succeeds as well, or it stops at a driving element both of whose
nodes are locked by then. It succeeds if only neighbours have changed places that are not driving
elements which share a node. And wherever it succeeds, in exact arithmetic, the networks are solved
by the same assignments of potentials. -/
theorem addAll_perm [Scalar.Exact α] (hc : c.Regular) (hc' : c.Uniform) {rs rs' : List (Request α)}
    (hrs : ∀ r ∈ rs, r.Valid) (hperm : rs.Perm rs')
    (hnet : Network.Reachable (fun m => ¬m.Enters) net) {net₁ : Network α}
    (h : addAll c modelType rs net = .ok () net₁) :
    ((∃ net₂, addAll c modelType rs' net = .ok () net₂) ∨ Refused c modelType net rs') ∧
    (Rearranged (Request.Apart c modelType net) rs rs' →
      ∃ net₂, addAll c modelType rs' net = .ok () net₂) ∧
    ∀ net₂, addAll c modelType rs' net = .ok () net₂ → ∀ V, net₁.Solves V ↔ net₂.Solves V := by
  have hrs' : ∀ r ∈ rs', r.Valid := fun r hr => hrs r (hperm.mem_iff.mpr hr)
  have h₁ := grown_of_addAll hc hc' hrs hnet h
  refine ⟨exists_addAll_or_refused hc hc' hrs hperm hnet h, fun hrearranged => ?_,
    fun net₂ hok V => ?_⟩
  · rcases addAll_cases hc hc' hrs' hnet with ⟨net₂, hok, -⟩ | ⟨-, hnone, -⟩
    · exact ⟨net₂, hok⟩
    · -- The locks do not see the exchanges, and in the first order they let everything pass.
      rw [← hrearranged.foldlM_lockStep, h₁.locks] at hnone
      cases hnone
  · have h₂ := grown_of_addAll hc hc' hrs' hnet hok
    exact ⟨h₁.solves hperm h₂, h₂.solves hperm.symm h₁⟩

/-! ### Documents -/

/-- The request that a description in a document makes. -/
def ElementDescription.toRequest (e : ElementDescription) : Request Float :=
  ⟨.named e.elementType, e.input, e.output, e.toGain⟩

omit [Scalar α] in
/-- The elements of a document are added as they are requested. -/
theorem Model.addAll_eq (modelType : String) : ∀ es : List ElementDescription,
    Model.addAll modelType es =
      FluxBalance.addAll .standard (some modelType) (es.map ElementDescription.toRequest)
  | [] => rfl
  | e :: es => by
    rw [Model.addAll, Model.addAll_eq modelType es]
    rfl

/-- What a document adds in one order can be added in another one, or is `Refused` there. -/
private theorem Model.exists_addAll_or_refused {modelType : String}
    {es es' : List ElementDescription} (hperm : es.Perm es') {net net' : Network Float}
    (hnet : Network.Reachable (fun m => ¬m.Enters) net)
    (h : Model.addAll modelType es net = .ok () net') :
    (∃ net₂, Model.addAll modelType es' net = .ok () net₂) ∨
      Refused .standard (some modelType) net (es'.map ElementDescription.toRequest) := by
  have hvalid : ∀ r ∈ es.map ElementDescription.toRequest, r.Valid := by
    simp only [List.forall_mem_map]
    exact fun _ _ => ⟨trivial, trivial⟩
  rw [Model.addAll_eq] at h ⊢
  exact FluxBalance.exists_addAll_or_refused Catalogue.regular_standard Catalogue.uniform_standard
    hvalid (hperm.map _) hnet h

/-! ### Drives of one node -/

/-- A request for a driving element. -/
def Request.rise (input output : Int) : Request Rat :=
  ⟨.kind .potentialDrive, input, output, .number 1⟩

private theorem Request.valid_rise (input output : Int) : (Request.rise input output).Valid :=
  ⟨trivial, trivial⟩

/-- Of two drives to the same node, the first drives that node and the second its own input, so one
of the outer nodes is left unlocked; which one depends on the order, the solutions do not. -/
theorem addAll_perm_floating : ∃ net₁ net₂,
    addAll [] none [.rise 0 1, .rise 2 1] Network.floating = .ok () net₁ ∧
    addAll [] none [.rise 2 1, .rise 0 1] Network.floating = .ok () net₂ ∧
    net₁.locked 0 = false ∧ net₂.locked 0 = true ∧ ∀ V, net₁.Solves V ↔ net₂.Solves V := by
  obtain ⟨⟨⟩, net₁, h₁⟩ : ∃ u net₁,
      addAll [] none [.rise 0 1, .rise 2 1] Network.floating = .ok u net₁ :=
    succeeded_eq_true_iff.mp (by decide +kernel)
  obtain ⟨⟨⟩, net₂, h₂⟩ : ∃ u net₂,
      addAll [] none [.rise 2 1, .rise 0 1] Network.floating = .ok u net₂ :=
    succeeded_eq_true_iff.mp (by decide +kernel)
  have hlocked₁ : (finalState (addAll [] none [.rise 0 1, .rise 2 1]
      Network.floating)).locked 0 = false := by decide +kernel
  have hlocked₂ : (finalState (addAll [] none [.rise 2 1, .rise 0 1]
      Network.floating)).locked 0 = true := by decide +kernel
  rw [h₁] at hlocked₁
  rw [h₂] at hlocked₂
  exact ⟨net₁, net₂, h₁, h₂, hlocked₁, hlocked₂,
    (addAll_perm (by simp [Catalogue.Regular]) (by simp [Catalogue.Uniform])
      (by simp [Request.valid_rise]) (.swap _ _ _) reachable_floating h₁).2.2 net₂ h₂⟩

/-- A constructor that is not uniform: it makes the first element of a network and no other one. -/
def Constructor.firstOnly : Constructor Rat := fun net input output gain =>
  if net.elements.isEmpty then Element.new net .conductive input output gain
  else .error (.element (.notAnElement "nothing"))

/-- The constructor that looks at the first node only is `Regular`. -/
private theorem Constructor.regular_firstOnly : Constructor.Regular Constructor.firstOnly := by
  intro net input output gain e h
  unfold firstOnly at h
  split at h
  · exact ⟨_, _, _, _, h⟩
  · cases h

/-- After a drive from the grounded node has locked the middle one, a second drive to the middle
locks its own input. The other way round, the second drive finds both of its nodes locked. And a
constructor that counts the elements makes another difference. -/
theorem refused_of_exchange :
    Network.Reachable (fun m => ¬m.Enters) Network.grounded ∧
    (succeeded (addAll [] none [.rise 0 1, .rise 2 1] Network.grounded) = true ∧
      Refused [] none Network.grounded [.rise 2 1, .rise 0 1]) ∧
    Constructor.Regular Constructor.firstOnly ∧
    succeeded (addAll [] none [⟨.constructor .firstOnly, 0, 1, .number 1⟩,
      ⟨.kind .conductive, 1, 2, .number 1⟩] Network.grounded) = true ∧
    succeeded (addAll [] none [⟨.kind .conductive, 1, 2, .number 1⟩,
      ⟨.constructor .firstOnly, 0, 1, .number 1⟩] Network.grounded) = false := by
  refine ⟨reachable_grounded, ⟨by decide +kernel, ?_⟩, Constructor.regular_firstOnly,
    by decide +kernel, by decide +kernel⟩
  have hfails : succeeded (addAll [] none [.rise 2 1, .rise 0 1] Network.grounded) = false := by
    decide +kernel
  have hmade : ∀ r ∈ [Request.rise 2 1, .rise 0 1],
      (r.sketch [] none Network.grounded).isSome = true := by decide +kernel
  have hvalid : ∀ r ∈ [Request.rise 2 1, .rise 0 1], r.Valid := by
    simp [Request.valid_rise]
  have hcases : _ ∨ _ ∧ _ ∧ (_ ∨ Refused [] none Network.grounded [.rise 2 1, .rise 0 1]) :=
    addAll_cases (by simp [Catalogue.Regular]) (by simp [Catalogue.Uniform]) hvalid
      reachable_grounded
  rcases hcases with ⟨net', hok, -⟩ | ⟨-, -, ⟨r, hr, hnot⟩ | hrefused⟩
  · rw [hok] at hfails
    cases hfails
  · have hsome := hmade r hr
    rw [hnot] at hsome
    cases hsome
  · exact hrefused

end FluxBalance
