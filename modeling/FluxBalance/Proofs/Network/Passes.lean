import FluxBalance.Proofs.Network.Settling

/-!
# Two runs of settling compared

Settling stops as soon as a pass changes nothing, so two runs of it may consist of different numbers
of passes. A pass that changes nothing leaves potentials at which every element holds, and further
passes over these could be taken for passes that renew nothing. In this sense every run consists of
all its rounds, `Rounds`, whether it has stopped early or not, and two runs can be compared round by
round: networks that agree at the nodes which are rooted within `d` agree one element further after
one more round.

So what settling leaves is determined by the potentials of undriven nodes, up to sameness. This does
not need that a node is driven by one element only: of several elements that drive one node the last
one prevails in either run.

Whether settling succeeds is a matter of who is inside the nodes at the ends of driving elements.

## Main definitions and results

* `Rounds`, `AgreeOn`: how often the elements have been renewed, and where two networks agree;
* `exists_settle_iff`: settling succeeds exactly if every driving element is `Open`;
* `IsSettled`, `same_of_isSettled`: settled networks are determined by their undriven potentials.
-/

namespace FluxBalance.Network

open FluxBalance.Computation

variable {α : Type} [Scalar α] {F a b a' b' : Network α} {es : List (Element α)} {e : Element α}

/-! ### Who has to be kept out -/

/-- A pass over driving elements succeeds exactly if each of them can be synchronised. -/
private theorem exists_settlePass_iff (hF : F.WellFormed) :
    ∀ {es : List (Element α)} {a : Network α}, (∀ e ∈ es, e ∈ F.drivers) → a.frame = F.frame →
      ((∃ changed a', settlePass es a = .ok changed a') ↔ ∀ e ∈ es, F.Open e)
  | [], a, _, _ => iff_of_true ⟨false, a, rfl⟩ nofun
  | e :: es, a, hes, ha => by
    obtain ⟨he, hes⟩ := List.forall_mem_cons.mp hes
    have hfirst := exists_synchronise_iff (hF.of_frame_eq ha.symm) (drivers_of_frame_eq ha ▸ he)
    rw [List.forall_mem_cons]
    constructor
    · rintro ⟨changed, a', h⟩
      obtain ⟨first, rest, a₁, hsync, hpass, -⟩ := settlePass_cons_eq_ok h
      have ha₁ : a₁.frame = F.frame := (keeps_synchronise hF he).of_ok ha hsync
      exact ⟨(hfirst.mp ⟨first, a₁, hsync⟩).of_frame_eq ha,
        (exists_settlePass_iff hF hes ha₁).mp ⟨rest, a', hpass⟩⟩
    · rintro ⟨hopen, hall⟩
      obtain ⟨first, a₁, hsync⟩ := hfirst.mpr (hopen.of_frame_eq ha.symm)
      have ha₁ : a₁.frame = F.frame := (keeps_synchronise hF he).of_ok ha hsync
      obtain ⟨rest, a', hpass⟩ := (exists_settlePass_iff hF hes ha₁).mpr hall
      exact ⟨first || rest, a', bind_eq_ok.mpr ⟨first, a₁, hsync, bind_eq_ok.mpr
        ⟨rest, a', hpass, rfl⟩⟩⟩

/-- Passes succeed if every driving element is `Open`. -/
theorem exists_settleWithin (hF : F.WellFormed) (hes : ∀ e ∈ es, e ∈ F.drivers)
    (hopen : ∀ e ∈ es, F.Open e) :
    ∀ (n : Nat) {a : Network α}, a.frame = F.frame → ∃ a', settleWithin es n a = .ok () a'
  | 0, a, _ => ⟨a, rfl⟩
  | n + 1, a, ha => by
    obtain ⟨changed, a₁, hpass⟩ := (exists_settlePass_iff hF hes ha).mpr hopen
    have ha₁ : a₁.frame = F.frame := (keeps_settlePass hF es hes).of_ok ha hpass
    unfold settleWithin
    cases changed with
    | true =>
      obtain ⟨a', h⟩ := exists_settleWithin hF hes hopen n ha₁
      exact ⟨a', bind_eq_ok.mpr ⟨true, a₁, hpass, h⟩⟩
    | false => exact ⟨a₁, bind_eq_ok.mpr ⟨false, a₁, hpass, rfl⟩⟩

/-- **Settling succeeds exactly if every driving element can be synchronised.** -/
theorem exists_settle_iff (hF : F.WellFormed) (ha : a.frame = F.frame) :
    (∃ a', settle a = .ok () a') ↔ ∀ e ∈ F.drivers, F.Open e := by
  unfold settle
  rw [drivers_of_frame_eq ha]
  constructor
  · rintro ⟨a', h⟩
    cases hlength : F.drivers.length with
    | zero =>
      rw [List.length_eq_zero_iff.mp hlength]
      exact nofun
    | succ n =>
      -- At least the first pass has gone over all elements.
      rw [hlength] at h
      obtain ⟨changed, a₁, hpass, -⟩ := bind_eq_ok.mp h
      exact (exists_settlePass_iff hF (fun _ he => he) ha).mp ⟨changed, a₁, hpass⟩
  · exact fun hopen => exists_settleWithin hF (fun _ he => he) hopen _ ha

/-! ### Rounds -/

/-- One element has been synchronised, or it has held before. -/
structure Renewed (e : Element α) (a b : Network α) : Prop where
  frame : b.frame = a.frame
  elsewhere : ∀ {i : Nat}, i ≠ e.driven → ∀ c, b.potentialAt i c = a.potentialAt i c
  holds : e.Holds Scalar.Same b

/-- Elements have been renewed one after the other. -/
inductive Renews : List (Element α) → Network α → Network α → Prop
  | nil (a : Network α) : Renews [] a a
  | cons {e : Element α} {es : List (Element α)} {a a₁ a' : Network α} :
    Renewed e a a₁ → Renews es a₁ a' → Renews (e :: es) a a'

/-- The elements have been renewed a number of times. -/
inductive Rounds (es : List (Element α)) : Nat → Network α → Network α → Prop
  | zero (a : Network α) : Rounds es 0 a a
  | succ {n : Nat} {a a₁ a' : Network α} :
    Renews es a a₁ → Rounds es n a₁ a' → Rounds es (n + 1) a a'

/-- A pass renews the driven potentials one after the other, `Renews`. -/
private theorem renews_of_settlePass :
    ∀ {es : List (Element α)} {a a' : Network α} {changed : Bool}, a.WellFormed →
      (∀ e ∈ es, e ∈ a.drivers) → settlePass es a = .ok changed a' → Renews es a a'
  | [], a, a', _, _, _, h => by
    obtain ⟨-, rfl⟩ := pure_eq_ok.mp h
    exact .nil a
  | e :: es, a, a', _, hwf, hes, h => by
    obtain ⟨first, rest, a₁, hfirst, hrest, -⟩ := settlePass_cons_eq_ok h
    obtain ⟨he, hes⟩ := List.forall_mem_cons.mp hes
    obtain ⟨⟨k, hk⟩, hd⟩ := mem_drivers.mp he
    have hsync := synchronised hwf hk hd hfirst
    refine .cons ⟨hsync.frame, hsync.elsewhere, fun c hc => .inl (hsync.holds c hc)⟩ ?_
    exact renews_of_settlePass (hwf.of_frame_eq hsync.frame.symm)
      (fun f hf => drivers_of_frame_eq hsync.frame.symm ▸ hes f hf) hrest

/-- Where all elements hold, they may be renewed without any change. -/
private theorem renews_of_holds :
    ∀ {es : List (Element α)}, (∀ e ∈ es, e.Holds Scalar.Same a) → Renews es a a
  | [], _ => .nil a
  | _ :: _, h =>
    .cons ⟨rfl, fun _ _ => rfl, h _ List.mem_cons_self⟩
      (renews_of_holds fun f hf => h f (List.mem_cons_of_mem _ hf))

/-- Where all relations hold already, any number of rounds changes nothing. -/
private theorem rounds_of_holds (h : ∀ e ∈ es, e.Holds Scalar.Same a) : ∀ n, Rounds es n a a
  | 0 => .zero a
  | n + 1 => .succ (renews_of_holds h) (rounds_of_holds h n)

variable [Scalar.Lawful α]

/-- A run that stops early may be taken for one that does not. -/
private theorem rounds_of_settleWithin :
    ∀ {n : Nat} {a a' : Network α}, a.WellFormed →
      settleWithin a.drivers n a = .ok () a' → Rounds a.drivers n a a'
  | 0, a, a', _, h => by
    obtain ⟨-, rfl⟩ := pure_eq_ok.mp h
    exact .zero a
  | n + 1, a, a', hwf, h => by
    unfold settleWithin at h
    obtain ⟨changed, a₁, hpass, h⟩ := bind_eq_ok.mp h
    refine .succ (renews_of_settlePass hwf (fun _ he => he) hpass) ?_
    cases changed with
    | true =>
      have hframe : a₁.frame = a.frame := (keeps_settlePass hwf _ fun _ he => he).of_ok rfl hpass
      rw [if_pos rfl, ← drivers_of_frame_eq hframe] at h
      rw [← drivers_of_frame_eq hframe]
      exact rounds_of_settleWithin (hwf.of_frame_eq hframe.symm) h
    | false =>
      obtain ⟨-, rfl⟩ := pure_eq_ok.mp h
      exact rounds_of_holds (unchanged_of_settlePass hwf (fun _ he => he) hpass).2 n

/-! ### Agreement -/

/-- The networks have one frame, and the same potentials at the given nodes. -/
structure AgreeOn (P : Nat → Prop) (a b : Network α) : Prop where
  frame : a.frame = b.frame
  same : ∀ {i : Nat}, P i → ∀ c, Scalar.Same (a.potentialAt i c) (b.potentialAt i c)

/-- If an element is `Renewed` in two networks that agree at its `dominant` node, they agree at the
node that it drives. -/
private theorem AgreeOn.renewed {P Q : Nat → Prop} (hwf : a.WellFormed) (he : e ∈ a.drivers)
    (h : AgreeOn P a b) (ha : Renewed e a a') (hb : Renewed e b b')
    (hdominant : Q e.driven → P e.dominant) (hother : ∀ i, Q i → i ≠ e.driven → P i) :
    AgreeOn Q a' b' := by
  obtain ⟨⟨k, hk⟩, hd⟩ := mem_drivers.mp he
  obtain ⟨w, hfits⟩ := hwf.fits hk
  have hframe : a'.frame = b'.frame := ha.frame.trans (h.frame.trans hb.frame.symm)
  refine ⟨hframe, fun {i} hi c => ?_⟩
  by_cases hie : i = e.driven
  · subst hie
    by_cases hc : c < e.gain.rows
    · have hne := hfits.dominant_ne_driven
      have hsame : Scalar.Same (a'.potentialAt e.dominant c) (b'.potentialAt e.dominant c) := by
        rw [ha.elsewhere hne, hb.elsewhere hne]
        exact h.same (hdominant hi) c
      exact ((ha.holds c hc).trans (e.impose_same c hsame)).trans (hb.holds c hc).symm
    · have hrows := (hfits.gain_of_drives hd).1
      have hfits' : e.Fits a' w := fits_of_frame_eq ha.frame.symm hfits
      rw [potentialAt_outside hfits'.driven (by omega),
        potentialAt_outside (fits_of_frame_eq hframe hfits').driven (by omega)]
  · rw [ha.elsewhere hie, hb.elsewhere hie]
    exact h.same (hother i hi hie) c

/-- A node within `d + 1` that agrees although the given elements have not been renewed yet: it is
within `d`, or it is driven by none of them. -/
def Reached (F : Network α) (d : Nat) (es : List (Element α)) (i : Nat) : Prop :=
  F.RootedWithin (d + 1) i ∧ (F.RootedWithin d i ∨ ∀ e ∈ es, e.driven ≠ i)

/-- Renewing the elements that are left gets one element further. -/
private theorem AgreeOn.renews {d : Nat} (hF : F.WellFormed) :
    ∀ {es : List (Element α)} {a b a' b' : Network α}, (∀ e ∈ es, e ∈ F.drivers) →
      a.frame = F.frame → AgreeOn (F.Reached d es) a b → Renews es a a' → Renews es b b' →
      AgreeOn (F.RootedWithin (d + 1)) a' b'
  | [], _, _, _, _, _, _, h, .nil _, .nil _ => ⟨h.frame, fun hi => h.same ⟨hi, .inr nofun⟩⟩
  | e :: es, a, b, a', b', hes, ha, h, .cons ha₁ ha', .cons hb₁ hb' => by
    obtain ⟨he, hes⟩ := List.forall_mem_cons.mp hes
    refine AgreeOn.renews hF hes (ha₁.frame.trans ha) ?_ ha' hb'
    refine h.renewed (hF.of_frame_eq ha.symm) (drivers_of_frame_eq ha ▸ he) ha₁ hb₁ ?_ ?_
    · intro hi
      have hdominant : F.RootedWithin d e.dominant := hi.1 e he rfl
      exact ⟨hdominant.succ, .inl hdominant⟩
    · intro i hi hie
      refine ⟨hi.1, hi.2.imp_right fun hnot => List.forall_mem_cons.mpr ⟨Ne.symm hie, hnot⟩⟩

omit [Scalar.Lawful α] [Scalar α] in
/-- A node that no element drives is `RootedWithin` any depth. -/
private theorem RootedWithin.of_undriven {i : Nat} (h : ∀ e ∈ F.drivers, e.driven ≠ i) :
    ∀ d, F.RootedWithin d i
  | 0 => h
  | d + 1 => (RootedWithin.of_undriven h d).succ

/-- A round over all driving elements gets one element further. -/
theorem AgreeOn.round {d : Nat} (hF : F.WellFormed) (ha : a.frame = F.frame)
    (h : AgreeOn (F.RootedWithin d) a b) (ha' : Renews F.drivers a a')
    (hb' : Renews F.drivers b b') : AgreeOn (F.RootedWithin (d + 1)) a' b' :=
  AgreeOn.renews hF (fun _ he => he) ha ⟨h.frame, fun {_} hi =>
    h.same (hi.2.elim id fun hnot => RootedWithin.of_undriven hnot d)⟩ ha' hb'

omit [Scalar.Lawful α] in
theorem Renews.frame : ∀ {es : List (Element α)} {a a' : Network α}, Renews es a a' →
    a'.frame = a.frame
  | _, _, _, .nil _ => rfl
  | _, _, _, .cons h h' => h'.frame.trans h.frame

/-- Each round brings two networks to agree one level of driven nodes deeper. -/
private theorem AgreeOn.rounds (hF : F.WellFormed) :
    ∀ {n d : Nat} {a b a' b' : Network α}, a.frame = F.frame →
      AgreeOn (F.RootedWithin d) a b → Rounds F.drivers n a a' → Rounds F.drivers n b b' →
      AgreeOn (F.RootedWithin (n + d)) a' b'
  | 0, d, _, _, _, _, _, h, .zero _, .zero _ => by rwa [Nat.zero_add]
  | n + 1, d, _, _, _, _, ha, h, .succ ha₁ ha', .succ hb₁ hb' => by
    rw [Nat.add_right_comm, Nat.add_assoc]
    exact AgreeOn.rounds hF (ha₁.frame.trans ha) (h.round hF ha ha₁ hb₁) ha' hb'

/-! ### Settled networks -/

/-- The network is what settling has left. -/
def IsSettled (net : Network α) : Prop := ∃ a, a.frame = net.frame ∧ settle a = .ok () net

/-- **Settled networks are determined by their undriven potentials**, up to sameness, if no chain of
driving elements is longer than there are driving elements. -/
theorem same_of_isSettled (hwf : a.WellFormed)
    (hroot : ∀ i, a.RootedWithin a.drivers.length i) (ha : a.IsSettled) (hb : b.IsSettled)
    (hframe : a.frame = b.frame)
    (hundriven : ∀ i, (∀ e ∈ a.drivers, e.driven ≠ i) →
      ∀ c, Scalar.Same (a.potentialAt i c) (b.potentialAt i c)) (i c : Nat) :
    Scalar.Same (a.potentialAt i c) (b.potentialAt i c) := by
  obtain ⟨a₀, hframea, hsettlea⟩ := ha
  obtain ⟨b₀, hframeb, hsettleb⟩ := hb
  have hdriversa : a₀.drivers = a.drivers := drivers_of_frame_eq hframea
  have hdriversb : b₀.drivers = a.drivers := drivers_of_frame_eq (hframeb.trans hframe.symm)
  -- Before settling the networks agree at undriven nodes, since these are left alone.
  have hbefore : AgreeOn (a.RootedWithin 0) a₀ b₀ := by
    refine ⟨hframea.trans (hframe.trans hframeb.symm), fun {j} hj k => ?_⟩
    rw [← potentialAt_of_settle (hdriversa.symm ▸ hj) hsettlea,
      ← potentialAt_of_settle (hdriversb.symm ▸ hj) hsettleb]
    exact hundriven j hj k
  have hroundsa := rounds_of_settleWithin (hwf.of_frame_eq hframea.symm) hsettlea
  have hroundsb := rounds_of_settleWithin
    (hwf.of_frame_eq (hframe.trans hframeb.symm)) hsettleb
  rw [hdriversa] at hroundsa
  rw [hdriversb] at hroundsb
  exact (AgreeOn.rounds hwf hframea hbefore hroundsa hroundsb).same (hroot i) c

end FluxBalance.Network
