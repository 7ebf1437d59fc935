import FluxBalance.Proofs.Network.WellFormed
import FluxBalance.Proofs.Scalar.Lawful

/-!
# Settling

Settling a network repeats passes over its driving elements. Two arguments meet in the proof that
it reaches potentials at which every driving element holds.

* A pass puts one more link of every chain right: a node that is reached from an undriven one by
  at most `d` driving elements has its final potential after `d` passes, and no later pass changes
  it again.
* A pass that changes nothing numerically leaves potentials at which every element holds up to
  numerical equality, so it does no harm to stop there.

`RootedWithin` measures the chains, and `Element.Holds` says that an element holds up to a relation
of scalars: equality in the first argument, sameness in the second.

## Main definitions and results

* `RootedWithin`, `Right`: how far a node is from undriven ones, and that it has its final
  potential;
* `exists_synchronise_iff`: when `synchronise` succeeds;
* `Holds`, `holds_of_settle`: settling reaches potentials at which every driving element holds.
-/

namespace FluxBalance

open FluxBalance.Computation

variable {α : Type}

/-! ### One element -/

variable [Scalar α]

namespace Element

/-- The potential that the element imposes, given the one of the dominant node. -/
def impose (e : Element α) (c : Nat) (x : α) : α :=
  if e.drivesOutput then x + e.gain.entry c 0 else x - e.gain.entry c 0

/-- Up to a relation, the driven node has the potential that the element imposes. -/
def Holds (R : α → α → Prop) (e : Element α) (net : Network α) : Prop :=
  ∀ c < e.gain.rows, R (net.potentialAt e.driven c) (e.impose c (net.potentialAt e.dominant c))

/-- What an element imposes on the same numbers is the same. -/
theorem impose_same [Scalar.Lawful α] (e : Element α) (c : Nat) {x y : α} (h : Scalar.Same x y) :
    Scalar.Same (e.impose c x) (e.impose c y) := by
  unfold impose
  split
  · exact Scalar.Lawful.add_same h (.refl _)
  · exact Scalar.Lawful.sub_same h (.refl _)

end Element

namespace Network

/-- The imposed potential has the entries that the element imposes. -/
private theorem imposed_eq_ok {e : Element α} {base target : DenseMatrix α}
    (h : imposed e base = .ok target) :
    base.shape = e.gain.shape ∧ target.shape = base.shape ∧
      ∀ c < base.rows, 0 < base.cols → target.entry c 0 = e.impose c (base.entry c 0) := by
  unfold imposed at h
  unfold Element.impose
  split at h
  · rename_i ho
    obtain ⟨hshape, rfl⟩ := DenseMatrix.add_eq_ok_iff.mp (fitting_eq_ok_iff.mp h)
    refine ⟨hshape, rfl, fun c hc h0 => ?_⟩
    rw [if_pos ho, DenseMatrix.entry_plus hc h0]
  · rename_i ho
    obtain ⟨hshape, rfl⟩ := DenseMatrix.sub_eq_ok_iff.mp (fitting_eq_ok_iff.mp h)
    refine ⟨hshape, rfl, fun c hc h0 => ?_⟩
    rw [if_neg ho, DenseMatrix.entry_minus hc h0]

/-- One call of `synchronise` writes what is imposed on the `dominant` potential, and tells whether
it was there before. -/
theorem synchronise_eq_ok {e : Element α} {net net' : Network α} {changed : Bool}
    (h : synchronise e net = .ok changed net') :
    ∃ base before target, net.nodes[e.dominant]? = some base ∧
      net.nodes[e.driven]? = some before ∧ imposed e base.potential = .ok target ∧
      changed = !before.potential.sameEntries target ∧
      net' = net.setNode e.driven { before with potential := target } := by
  unfold synchronise at h
  obtain ⟨p, net₁, hlook, h⟩ := bind_eq_ok.mp h
  obtain ⟨hp, rfl⟩ := look_eq_ok_iff.mp hlook
  obtain ⟨base, hbase, -, rfl⟩ := potential_eq_ok_iff.mp hp
  obtain ⟨target, net₂, hlook, h⟩ := bind_eq_ok.mp h
  obtain ⟨htarget, rfl⟩ := look_eq_ok_iff.mp hlook
  obtain ⟨before, net₃, hlook, h⟩ := bind_eq_ok.mp h
  obtain ⟨hbefore, rfl⟩ := look_eq_ok_iff.mp hlook
  obtain ⟨u, net₄, hchange, h⟩ := bind_eq_ok.mp h
  obtain ⟨rfl, rfl⟩ := pure_eq_ok.mp h
  obtain ⟨i, n, n', hi, hn, hn', rfl⟩ := changeNode_eq_ok_iff.mp hchange
  obtain rfl : e.driven = i := by omega
  obtain ⟨hfree, m, hm, rfl⟩ := Node.change_eq_ok_iff.mp hn'
  cases hm
  rw [node_natCast_eq_ok_iff, hn] at hbefore
  cases hbefore
  exact ⟨base, before, target, hbase, hn, htarget, rfl, by rw [← hfree]⟩

/-- Whoever is inside the nodes of the element does not keep it from being synchronised: nobody
writes to the dominant node, and nobody at all is inside the driven one. -/
structure Open (e : Element α) (net : Network α) : Prop where
  dominant : ∀ {n : Node α}, net.nodes[e.dominant]? = some n → n.access ≠ .exclusive
  driven : ∀ {n : Node α}, net.nodes[e.driven]? = some n → n.access = .free

omit [Scalar α] in
/-- In a network of free nodes every element is `Open`. -/
theorem open_of_free {net : Network α}
    (hfree : ∀ {i : Nat} {n : Node α}, net.nodes[i]? = some n → n.access = .free)
    (e : Element α) : Open e net where
  dominant hn := by
    rw [hfree hn]
    exact nofun
  driven := hfree

theorem Open.of_frame_eq {a b : Network α} {e : Element α} (h : Open e a)
    (hab : a.frame = b.frame) : Open e b where
  dominant hm := by
    obtain ⟨n, hn, hframe⟩ := getElem?_of_frame_eq hab.symm hm
    exact (Node.frame_eq_iff.mp hframe).2.2.2.2 ▸ h.dominant hn
  driven hm := by
    obtain ⟨n, hn, hframe⟩ := getElem?_of_frame_eq hab.symm hm
    exact (Node.frame_eq_iff.mp hframe).2.2.2.2 ▸ h.driven hn

/-- An element that is synchronised has read its dominant node and written to the driven one. -/
private theorem open_of_synchronise {e : Element α} {net net' : Network α} {changed : Bool}
    (h : synchronise e net = .ok changed net') : Open e net := by
  obtain ⟨p, net₁, hlook, h⟩ := bind_eq_ok.mp h
  obtain ⟨hp, rfl⟩ := look_eq_ok_iff.mp hlook
  obtain ⟨base, hbase, hread, -⟩ := potential_eq_ok_iff.mp hp
  obtain ⟨target, net₂, hlook, h⟩ := bind_eq_ok.mp h
  obtain ⟨-, rfl⟩ := look_eq_ok_iff.mp hlook
  obtain ⟨before, net₃, hlook, h⟩ := bind_eq_ok.mp h
  obtain ⟨-, rfl⟩ := look_eq_ok_iff.mp hlook
  obtain ⟨_, net₄, hchange, -⟩ := bind_eq_ok.mp h
  obtain ⟨i, n, n', hi, hn, hn', -⟩ := changeNode_eq_ok_iff.mp hchange
  obtain rfl : e.driven = i := by omega
  refine ⟨fun hm => ?_, fun hm => ?_⟩
  · rw [hbase] at hm
    cases hm
    exact hread
  · rw [hn] at hm
    cases hm
    exact (Node.change_eq_ok_iff.mp hn').1

/-- A potential of the `shape` of the gain has one to impose on the driven node. -/
private theorem exists_imposed {e : Element α} {V : DenseMatrix α} (h : V.shape = e.gain.shape) :
    ∃ target, imposed e V = .ok target := by
  unfold imposed
  split
  · exact ⟨_, fitting_eq_ok_iff.mpr (DenseMatrix.add_eq_ok_iff.mpr ⟨h, rfl⟩)⟩
  · exact ⟨_, fitting_eq_ok_iff.mpr (DenseMatrix.sub_eq_ok_iff.mpr ⟨h, rfl⟩)⟩

/-- **Only who is inside its nodes keeps an element from being synchronised.** -/
theorem exists_synchronise_iff {net : Network α} (hwf : net.WellFormed) {e : Element α}
    (he : e ∈ net.drivers) :
    (∃ changed net', synchronise e net = .ok changed net') ↔ Open e net := by
  constructor
  · rintro ⟨changed, net', h⟩
    exact open_of_synchronise h
  · intro hopen
    obtain ⟨⟨k, hk⟩, hd⟩ := mem_drivers.mp he
    obtain ⟨w, hfits⟩ := hwf.fits hk
    obtain ⟨hgainrows, hgaincols⟩ := hfits.gain_of_drives hd
    obtain ⟨base, hbase, hrows⟩ := width?_eq_some.mp hfits.dominant
    obtain ⟨before, hbefore, -⟩ := width?_eq_some.mp hfits.driven
    have hfree := hopen.driven hbefore
    obtain ⟨target, htarget⟩ := exists_imposed (e := e) (V := base.potential) <| by
      rw [DenseMatrix.shape, DenseMatrix.shape, hrows, hgainrows, hgaincols, hwf.column hbase]
    have hchanged : (before.change fun n => .ok { n with potential := target }) =
        .ok { before with potential := target } :=
      Node.change_eq_ok_iff.mpr ⟨hfree, _, rfl, by rw [← hfree]⟩
    have hchange : changeNode e.driven
        (fun n => n.change fun n => .ok { n with potential := target }) net =
          .ok () (net.setNode e.driven { before with potential := target }) :=
      changeNode_eq_ok_iff.mpr ⟨e.driven, before, _, rfl, hbefore, hchanged, rfl⟩
    have hpotential : net.potential e.dominant = .ok base.potential :=
      potential_eq_ok_iff.mpr ⟨base, hbase, hopen.dominant hbase, rfl⟩
    -- With all steps known to succeed, the computation is put together step by step.
    refine ⟨!before.potential.sameEntries target,
      net.setNode e.driven { before with potential := target }, ?_⟩
    refine bind_eq_ok.mpr ⟨_, net, look_eq_ok_iff.mpr ⟨hpotential, rfl⟩, ?_⟩
    refine bind_eq_ok.mpr ⟨_, net, look_eq_ok_iff.mpr ⟨htarget, rfl⟩, ?_⟩
    refine bind_eq_ok.mpr
      ⟨_, net, look_eq_ok_iff.mpr ⟨node_natCast_eq_ok_iff.mpr hbefore, rfl⟩, ?_⟩
    exact bind_eq_ok.mpr ⟨(), _, hchange, rfl⟩

/-- What synchronising an element does to the potentials. -/
structure Synchronised (e : Element α) (net net' : Network α) (changed : Bool) : Prop where
  frame : net'.frame = net.frame
  elsewhere : ∀ {i : Nat}, i ≠ e.driven → ∀ c, net'.potentialAt i c = net.potentialAt i c
  holds : e.Holds (· = ·) net'
  unchanged : changed = false → ∀ i c, Scalar.Same (net.potentialAt i c) (net'.potentialAt i c)

/-- What a successful `synchronise` has done is said by `Synchronised`. -/
theorem synchronised {net net' : Network α} (hwf : net.WellFormed) {k : Nat} {e : Element α}
    (he : net.elements[k]? = some e) (hd : e.kind.drives = true) {changed : Bool}
    (h : synchronise e net = .ok changed net') : Synchronised e net net' changed := by
  obtain ⟨base, before, target, hbase, hbefore, htarget, rfl, rfl⟩ := synchronise_eq_ok h
  obtain ⟨w, hfits⟩ := hwf.fits he
  obtain ⟨hrows, hcols⟩ := hfits.gain_of_drives hd
  obtain ⟨hgain, hshape, hentry⟩ := imposed_eq_ok htarget
  have hbaserows : base.potential.rows = w := (congrArg Prod.fst hgain).trans hrows
  have hbasecols : base.potential.cols = 1 := (congrArg Prod.snd hgain).trans hcols
  obtain ⟨n, hn, hnrows⟩ := width?_eq_some.mp hfits.driven
  rw [hbefore] at hn
  cases hn
  have htargetrows : target.rows = w := (congrArg Prod.fst hshape).trans hbaserows
  have htargetcols : target.cols = 1 := (congrArg Prod.snd hshape).trans hbasecols
  have hbeforecols : before.potential.cols = 1 := hwf.column hbefore
  have hlt : e.driven < net.nodes.size := (Array.getElem?_eq_some_iff.mp hbefore).1
  refine ⟨?_, fun hi c => potentialAt_setNode_of_ne hlt (Ne.symm hi) c, ?_, ?_⟩
  · refine frame_setNode hbefore (Node.frame_set_potential ?_)
    rw [DenseMatrix.shape, DenseMatrix.shape, htargetrows, htargetcols, hnrows, hbeforecols]
  · intro c hc
    rw [potentialAt_setNode_self hlt,
      potentialAt_setNode_of_ne hlt hfits.dominant_ne_driven.symm, potentialAt_eq hbase]
    exact hentry c (by omega) (by omega)
  · intro hchanged i c
    by_cases hi : i = e.driven
    · subst hi
      rw [potentialAt_setNode_self hlt, potentialAt_eq hbefore]
      -- Outside its shape every potential has the entry zero.
      by_cases hc : c < w
      · refine .of_eq (DenseMatrix.sameEntries_of_column hbeforecols htargetcols ?_ (by omega))
        simpa using hchanged
      · have hbefore0 : before.potential.entry c 0 = 0 := DenseMatrix.entry_outside _ (by omega)
        have htarget0 : target.entry c 0 = 0 := DenseMatrix.entry_outside _ (by omega)
        exact .inl (hbefore0.trans htarget0.symm)
    · rw [potentialAt_setNode_of_ne hlt (Ne.symm hi)]

/-- If `synchronise` fails, nothing has been written. -/
theorem synchronise_eq_error {e : Element α} {net net' : Network α} {cause : Error α}
    (h : synchronise e net = .error cause net') : net' = net := by
  unfold synchronise at h
  rcases look_bind_eq_error h with h | ⟨base, -, h⟩
  · exact h
  rcases look_bind_eq_error h with h | ⟨target, -, h⟩
  · exact h
  rcases look_bind_eq_error h with h | ⟨before, -, h⟩
  · exact h
  rcases bind_eq_error.mp h with h | ⟨_, _, _, h⟩
  · exact changeNode_eq_error h
  · cases h

/-- Synchronising keeps the `frame`, whether it succeeds or fails. -/
theorem keeps_synchronise {F : Network α} (hF : F.WellFormed) {e : Element α}
    (he : e ∈ F.drivers) : Keeps (fun net => net.frame = F.frame) (synchronise e) := by
  intro net hnet
  obtain ⟨⟨k, hk⟩, hd⟩ := mem_drivers.mp he
  rw [← elements_of_frame_eq hnet] at hk
  cases h : synchronise e net with
  | ok changed net' =>
    exact (synchronised (hF.of_frame_eq hnet.symm) hk hd h).frame.trans hnet
  | error cause net' => exact synchronise_eq_error h ▸ hnet

/-! ### Passes -/

theorem keeps_settlePass {F : Network α} (hF : F.WellFormed) :
    ∀ es, (∀ e ∈ es, e ∈ F.drivers) → Keeps (fun net => net.frame = F.frame) (settlePass es)
  | [], _ => .pure false
  | e :: es, hes =>
    .bind (keeps_synchronise hF (hes e List.mem_cons_self)) fun _ =>
      .bind (keeps_settlePass hF es fun f hf => hes f (List.mem_cons_of_mem e hf)) fun _ => .pure _

theorem keeps_settleWithin {F : Network α} (hF : F.WellFormed) {es : List (Element α)}
    (hes : ∀ e ∈ es, e ∈ F.drivers) :
    ∀ n, Keeps (fun net => net.frame = F.frame) (settleWithin es n)
  | 0 => .pure ()
  | n + 1 => by
    refine .bind (keeps_settlePass hF es hes) fun changed => ?_
    cases changed with
    | true => exact keeps_settleWithin hF hes n
    | false => exact .pure ()

/-- Settling keeps the `frame`, whether it succeeds or fails. -/
theorem keeps_settle {F : Network α} (hF : F.WellFormed) :
    Keeps (fun net => net.frame = F.frame) settle := by
  intro net hnet
  unfold settle
  rw [drivers_of_frame_eq hnet]
  exact keeps_settleWithin hF (fun _ h => h) _ net hnet

/-! ### Chains of driving elements -/

/-- At most `d` driving elements, one after another, lead to the node from an undriven one. -/
def RootedWithin (net : Network α) : Nat → Nat → Prop
  | 0, i => ∀ e ∈ net.drivers, e.driven ≠ i
  | d + 1, i => ∀ e ∈ net.drivers, e.driven = i → RootedWithin net d e.dominant

omit [Scalar α] in
/-- What is `RootedWithin` a depth is rooted within a greater one. -/
theorem RootedWithin.succ {net : Network α} :
    ∀ {d i : Nat}, net.RootedWithin d i → net.RootedWithin (d + 1) i
  | 0, _, h => fun e he hei => absurd hei (h e he)
  | _ + 1, _, h => fun e he hei => (h e he hei).succ

theorem RootedWithin.of_frame_eq {a b : Network α} (h : a.frame = b.frame) :
    ∀ {d i : Nat}, a.RootedWithin d i → b.RootedWithin d i
  | 0, _, hi => fun e he => hi e (drivers_of_frame_eq h ▸ he)
  | _ + 1, _, hi => fun e he hei => (hi e (drivers_of_frame_eq h ▸ he) hei).of_frame_eq h

/-! ### What a pass puts right -/

/-- The driving elements hold exactly at the nodes that are rooted within `d`. -/
def Right (d : Nat) (net : Network α) : Prop :=
  ∀ e ∈ net.drivers, net.RootedWithin d e.driven → e.Holds (· = ·) net

/-- No driven node has to be `Right` at depth zero. -/
theorem right_zero (net : Network α) : Right 0 net := fun e he hi => absurd rfl (hi e he)

/-- A driving element that holds still does after its nodes have kept their potentials. -/
private theorem Holds.of_potentialAt_eq {R : α → α → Prop} {e : Element α} {net net' : Network α}
    (h : e.Holds R net) (hdriven : ∀ c, net'.potentialAt e.driven c = net.potentialAt e.driven c)
    (hdominant : ∀ c, net'.potentialAt e.dominant c = net.potentialAt e.dominant c) :
    e.Holds R net' := by
  intro c hc
  rw [hdriven, hdominant]
  exact h c hc

/-- What a step or a pass keeps right, where everything within `d` was right before. -/
structure KeepsRight (d : Nat) (net net' : Network α) : Prop where
  frame : net'.frame = net.frame
  frozen : ∀ {i : Nat}, net.RootedWithin d i → ∀ c, net'.potentialAt i c = net.potentialAt i c
  holds : ∀ e ∈ net.drivers, net.RootedWithin (d + 1) e.driven → e.Holds (· = ·) net →
    e.Holds (· = ·) net'

/-- What `KeepsRight` says of a network that is `Right`. -/
theorem KeepsRight.right {d : Nat} {net net' : Network α} (h : KeepsRight d net net')
    (hright : Right d net) : Right d net' := by
  intro e he hi
  rw [drivers_of_frame_eq h.frame] at he
  have hi' : net.RootedWithin d e.driven := hi.of_frame_eq h.frame
  exact h.holds e he hi'.succ (hright e he hi')

theorem KeepsRight.trans {d : Nat} {net₀ net₁ net₂ : Network α} (h : KeepsRight d net₀ net₁)
    (h' : KeepsRight d net₁ net₂) : KeepsRight d net₀ net₂ where
  frame := h'.frame.trans h.frame
  frozen hi c := (h'.frozen (hi.of_frame_eq h.frame.symm) c).trans (h.frozen hi c)
  holds e he hi hold :=
    h'.holds e (drivers_of_frame_eq h.frame.symm ▸ he) (hi.of_frame_eq h.frame.symm)
      (h.holds e he hi hold)

/-- Synchronising one element keeps right what is right. -/
private theorem keepsRight_synchronise {d : Nat} {net net' : Network α} (hwf : net.WellFormed)
    (hord : net.Orderly) (hright : Right d net) {e : Element α} (he : e ∈ net.drivers)
    {changed : Bool} (h : synchronise e net = .ok changed net') : KeepsRight d net net' := by
  obtain ⟨⟨k, hk⟩, hd⟩ := mem_drivers.mp he
  have hsync := synchronised hwf hk hd h
  obtain ⟨w, hfits⟩ := hwf.fits hk
  have hfrozen : ∀ {i : Nat}, net.RootedWithin d i →
      ∀ c, net'.potentialAt i c = net.potentialAt i c := by
    intro i hi c
    by_cases hie : i = e.driven
    · subst hie
      by_cases hc : c < e.gain.rows
      · -- The element was right already, so it is given the potential that it has.
        rw [hsync.holds c hc, hsync.elsewhere hfits.dominant_ne_driven, hright e he hi c hc]
      · have hrows := (hfits.gain_of_drives hd).1
        have hfits' : e.Fits net' w := fits_of_frame_eq hsync.frame.symm hfits
        rw [potentialAt_outside hfits'.driven (by omega),
          potentialAt_outside hfits.driven (by omega)]
    · exact hsync.elsewhere hie c
  refine ⟨hsync.frame, hfrozen, fun f hf hi hold => ?_⟩
  -- Only the element itself drives its node, and it holds after it has been synchronised.
  by_cases hfe : f.driven = e.driven
  · obtain ⟨⟨l, hl⟩, hfd⟩ := mem_drivers.mp hf
    obtain rfl : l = k := hord.driven_inj hl hk hfd hd hfe
    obtain rfl : f = e := by simpa [hl] using hk
    exact hsync.holds
  · exact Holds.of_potentialAt_eq hold (hsync.elsewhere hfe) (hfrozen (hi f hf rfl))

/-- A pass settles its first element and then the others. -/
theorem settlePass_cons_eq_ok {e : Element α} {es : List (Element α)} {net net' : Network α}
    {changed : Bool} (h : settlePass (e :: es) net = .ok changed net') :
    ∃ first rest net₁, synchronise e net = .ok first net₁ ∧
      settlePass es net₁ = .ok rest net' ∧ changed = (first || rest) := by
  unfold settlePass at h
  obtain ⟨first, net₁, hfirst, h⟩ := bind_eq_ok.mp h
  obtain ⟨rest, net₂, hrest, h⟩ := bind_eq_ok.mp h
  obtain ⟨rfl, rfl⟩ := pure_eq_ok.mp h
  exact ⟨first, rest, net₁, hfirst, hrest, rfl⟩

/-- A pass over some driving elements keeps right what is right and puts these elements right
as far as their nodes are rooted within `d + 1`. -/
private theorem keepsRight_settlePass {d : Nat} :
    ∀ {es : List (Element α)} {net net' : Network α} {changed : Bool}, net.WellFormed →
      net.Orderly → Right d net → (∀ e ∈ es, e ∈ net.drivers) →
      settlePass es net = .ok changed net' →
      KeepsRight d net net' ∧
        ∀ e ∈ es, net.RootedWithin (d + 1) e.driven → e.Holds (· = ·) net'
  | [], net, net', _, _, _, _, _, h => by
    obtain ⟨-, rfl⟩ := pure_eq_ok.mp h
    exact ⟨⟨rfl, fun _ _ => rfl, fun _ _ _ hold => hold⟩, by simp⟩
  | e :: es, net, net', _, hwf, hord, hright, hes, h => by
    obtain ⟨first, rest, net₁, hfirst, hrest, -⟩ := settlePass_cons_eq_ok h
    have he : e ∈ net.drivers := hes e List.mem_cons_self
    obtain ⟨⟨k, hk⟩, hd⟩ := mem_drivers.mp he
    have hsync := synchronised hwf hk hd hfirst
    have hstep := keepsRight_synchronise hwf hord hright he hfirst
    have hes₁ : ∀ f ∈ es, f ∈ net₁.drivers := fun f hf =>
      drivers_of_frame_eq hsync.frame.symm ▸ hes f (List.mem_cons_of_mem e hf)
    obtain ⟨hpass, hall⟩ := keepsRight_settlePass (hwf.of_frame_eq hsync.frame.symm)
      (hord.of_frame_eq hsync.frame.symm) (hstep.right hright) hes₁ hrest
    refine ⟨hstep.trans hpass, fun f hf hi => ?_⟩
    have hi₁ : net₁.RootedWithin (d + 1) f.driven := hi.of_frame_eq hsync.frame.symm
    -- The first element holds after its own step, which the rest of the pass does not undo.
    rcases List.mem_cons.mp hf with rfl | hf
    · exact hpass.holds f (drivers_of_frame_eq hsync.frame.symm ▸ he) hi₁ hsync.holds
    · exact hall f hf hi₁

/-- A pass over all driving elements, in whatever order, gets one link further. -/
private theorem right_succ_of_settlePass {d : Nat} {es : List (Element α)} {net net' : Network α}
    {changed : Bool} (hwf : net.WellFormed) (hord : net.Orderly) (hright : Right d net)
    (hes : ∀ e, e ∈ es ↔ e ∈ net.drivers) (h : settlePass es net = .ok changed net') :
    net'.frame = net.frame ∧ Right (d + 1) net' := by
  obtain ⟨hpass, hall⟩ := keepsRight_settlePass hwf hord hright (fun e he => (hes e).mp he) h
  refine ⟨hpass.frame, fun e he hi => ?_⟩
  exact hall e ((hes e).mpr (drivers_of_frame_eq hpass.frame ▸ he)) (hi.of_frame_eq hpass.frame)

/-! ### Passes that change nothing -/

section

variable [Scalar.Lawful α]

/-- Elements hold up to sameness at potentials that are the same as those they were given. -/
theorem unchanged_of_settlePass :
    ∀ {es : List (Element α)} {net net' : Network α}, net.WellFormed →
      (∀ e ∈ es, e ∈ net.drivers) → settlePass es net = .ok false net' →
      (∀ i c, Scalar.Same (net.potentialAt i c) (net'.potentialAt i c)) ∧
        ∀ e ∈ es, e.Holds Scalar.Same net'
  | [], net, net', _, _, h => by
    obtain ⟨-, rfl⟩ := pure_eq_ok.mp h
    exact ⟨fun _ _ => .refl _, by simp⟩
  | e :: es, net, net', hwf, hes, h => by
    obtain ⟨first, rest, net₁, hfirst, hrest, hchanged⟩ := settlePass_cons_eq_ok h
    obtain ⟨rfl, rfl⟩ : first = false ∧ rest = false := Bool.or_eq_false_iff.mp hchanged.symm
    obtain ⟨⟨k, hk⟩, hd⟩ := mem_drivers.mp (hes e List.mem_cons_self)
    have hsync := synchronised hwf hk hd hfirst
    have hes₁ : ∀ f ∈ es, f ∈ net₁.drivers := fun f hf =>
      drivers_of_frame_eq hsync.frame.symm ▸ hes f (List.mem_cons_of_mem e hf)
    obtain ⟨hsame, hall⟩ := unchanged_of_settlePass (hwf.of_frame_eq hsync.frame.symm) hes₁ hrest
    refine ⟨fun i c => (hsync.unchanged rfl i c).trans (hsame i c), fun f hf => ?_⟩
    rcases List.mem_cons.mp hf with rfl | hf
    · intro c hc
      have hexact := hsync.holds c hc
      have hdriven := (hsame f.driven c).symm
      rw [hexact] at hdriven
      exact hdriven.trans (f.impose_same c (hsame f.dominant c))
    · exact hall f hf

/-! ### The result of settling -/

/-- Passes over all driving elements, in whatever order, are repeated until everything is right or
nothing changes any more. -/
theorem holds_of_settleWithin {es : List (Element α)} :
    ∀ {n d : Nat} {net net' : Network α}, net.WellFormed → net.Orderly → Right d net →
      (∀ i, net.RootedWithin (n + d) i) → (∀ e, e ∈ es ↔ e ∈ net.drivers) →
      settleWithin es n net = .ok () net' → ∀ e ∈ net.drivers, e.Holds Scalar.Same net'
  | 0, d, net, net', _, _, hright, hroot, _, h => by
    obtain ⟨-, rfl⟩ := pure_eq_ok.mp h
    intro e he c hc
    have := hright e he (by simpa using hroot e.driven) c hc
    exact .inl this
  | n + 1, d, net, net', hwf, hord, hright, hroot, hes, h => by
    unfold settleWithin at h
    obtain ⟨changed, net₁, hpass, h⟩ := bind_eq_ok.mp h
    obtain ⟨hframe, hright₁⟩ := right_succ_of_settlePass hwf hord hright hes hpass
    cases changed with
    | true =>
      -- One pass less is left, but one link more is right.
      intro e he
      rw [← drivers_of_frame_eq hframe] at he hes
      refine holds_of_settleWithin (hwf.of_frame_eq hframe.symm) (hord.of_frame_eq hframe.symm)
        hright₁ (fun i => ?_) hes h e he
      have hi : net.RootedWithin (n + (d + 1)) i := by
        rw [show n + (d + 1) = n + 1 + d by omega]
        exact hroot i
      exact hi.of_frame_eq hframe.symm
    | false =>
      obtain ⟨-, rfl⟩ := pure_eq_ok.mp h
      intro e he
      exact (unchanged_of_settlePass hwf (fun f hf => (hes f).mp hf) hpass).2 e ((hes e).mpr he)

/-- **Settling reaches potentials at which every driving element holds**, up to sameness, if no
chain of driving elements is longer than there are driving elements. -/
theorem holds_of_settle {net net' : Network α} (hwf : net.WellFormed) (hord : net.Orderly)
    (hroot : ∀ i, net.RootedWithin net.drivers.length i) (h : settle net = .ok () net') :
    ∀ e ∈ net.drivers, e.Holds Scalar.Same net' :=
  holds_of_settleWithin hwf hord (right_zero net) hroot (fun _ => .rfl) h

end

/-! ### Nodes that are not driven -/

private theorem keeps_node_synchronise {i : Nat} {n? : Option (Node α)} {e : Element α}
    (hi : e.driven ≠ i) : Keeps (fun net => net.nodes[i]? = n?) (synchronise e) := by
  refine .bind (keeps_look _) fun base => .bind (keeps_look _) fun target =>
    .bind (keeps_look _) fun before => .bind (keeps_changeNode ?_) fun _ => .pure _
  rintro net j n n' hnode hj hn -
  obtain rfl : e.driven = j := by omega
  rw [getElem?_nodes_setNode (Array.getElem?_eq_some_iff.mp hn).1, if_neg hi]
  exact hnode

/-- A pass leaves a node alone that none of its elements drives. -/
private theorem keeps_node_settlePass {i : Nat} {n? : Option (Node α)} :
    ∀ {es : List (Element α)}, (∀ e ∈ es, e.driven ≠ i) →
      Keeps (fun net => net.nodes[i]? = n?) (settlePass es)
  | [], _ => .pure false
  | _ :: _, hes =>
    .bind (keeps_node_synchronise (hes _ List.mem_cons_self)) fun _ =>
      .bind (keeps_node_settlePass fun e he => hes e (List.mem_cons_of_mem _ he)) fun _ => .pure _

/-- Passes leave a node alone that none of their elements drives. -/
theorem keeps_node_settleWithin {i : Nat} {n? : Option (Node α)} {es : List (Element α)}
    (hi : ∀ e ∈ es, e.driven ≠ i) :
    ∀ n, Keeps (fun net => net.nodes[i]? = n?) (settleWithin es n)
  | 0 => .pure ()
  | n + 1 => by
    refine .bind (keeps_node_settlePass hi) fun changed => ?_
    cases changed with
    | true => exact keeps_node_settleWithin hi n
    | false => exact .pure ()

/-- Settling leaves every node alone that no element drives. -/
theorem getElem?_of_settle {net : Network α} {i : Nat} (hi : ∀ e ∈ net.drivers, e.driven ≠ i) :
    (finalState (settle net)).nodes[i]? = net.nodes[i]? :=
  keeps_node_settleWithin hi _ net rfl

/-- Settling keeps the potentials of nodes that no element drives. -/
theorem potentialAt_of_settle {net net' : Network α} {i : Nat}
    (hi : ∀ e ∈ net.drivers, e.driven ≠ i) (h : settle net = .ok () net') (c : Nat) :
    net'.potentialAt i c = net.potentialAt i c := by
  have hnode := getElem?_of_settle hi
  rw [h] at hnode
  rw [potentialAt, potentialAt, show net'.nodes[i]? = net.nodes[i]? from hnode]

end Network

end FluxBalance
