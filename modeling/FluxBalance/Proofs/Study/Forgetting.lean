import FluxBalance.Proofs.Study.Loops

/-!
# Equations that do not remember

All equations of a network are evaluated in one network, and each evaluation leaves other potentials
in it. An equation would depend on the evaluations before it if one of these potentials could reach
its value. None can: potentials of unlocked nodes are all written anew, and those of driven nodes
are derived anew, so evaluating starts over from what nothing writes to, which is the `frame` and
the potentials of locked nodes that no element drives. Evaluating keeps these, so any number of
evaluations, in whichever order, does not matter to the next one.

## Main definitions and results

* `SharesBoundary`: states of a network that differ in unknown and driven potentials only;
* `same_value_of_sharesBoundary`: an equation has the same value in all of them.
-/

namespace FluxBalance.Network

open FluxBalance.Computation

variable {α : Type} [Scalar α] {F a b : Network α} {x x' : Unknowns α}

/-! ### Networks with one boundary -/

/-- The networks differ in nothing but potentials of nodes that are unlocked or driven. -/
structure SharesBoundary (a F : Network α) : Prop where
  frame : a.frame = F.frame
  node : ∀ {i : Nat}, F.Boundary i → a.nodes[i]? = F.nodes[i]?

theorem SharesBoundary.refl (F : Network α) : F.SharesBoundary F := ⟨rfl, fun _ => rfl⟩

omit [Scalar α] in
theorem Boundary.not_isUnknown {i : Nat} (h : F.Boundary i) (c : Nat) : ¬F.IsUnknown ⟨i, c⟩ := by
  obtain ⟨n, hn, hlocked, -⟩ := h
  rintro ⟨m, hm, hunlocked, -⟩
  rw [hn] at hm
  cases hm
  rw [hlocked] at hunlocked
  cases hunlocked

/-- Of the potentials without `components` there is only one. -/
private theorem getElem?_eq_of_components_eq_zero (h : a.frame = F.frame) {i : Nat} {n : Node α}
    (hn : F.nodes[i]? = some n) (hzero : n.components = 0) : a.nodes[i]? = F.nodes[i]? := by
  obtain ⟨m, hm, hframe⟩ := getElem?_of_frame_eq h.symm hn
  obtain ⟨hshape, hlocked, hmetadata, helements, haccess⟩ := Node.frame_eq_iff.mp hframe
  have hpotential : n.potential = m.potential :=
    DenseMatrix.ext_entry (congrArg Prod.fst hshape) (congrArg Prod.snd hshape) fun r c hr _ => by
      rw [show n.potential.rows = 0 from hzero] at hr
      exact absurd hr (Nat.not_lt_zero r)
  rw [hm, hn]
  cases n
  cases m
  simp only [Option.some.injEq, Node.mk.injEq]
  exact ⟨hpotential.symm, hlocked.symm, hmetadata.symm, helements.symm, haccess.symm⟩

/-- **Networks that share the boundary differ in the unknowns**, and in what is derived
from them. -/
theorem differsIn_isUnknown_iff : DiffersIn F.IsUnknown F a ↔ a.SharesBoundary F := by
  constructor
  · intro h
    exact ⟨h.frame, fun hi => h.node (fun c => hi.not_isUnknown c) hi.choose_spec.2.2⟩
  · intro h
    refine ⟨h.frame, fun {i} hnot hdriven => ?_⟩
    cases hn : F.nodes[i]? with
    | none =>
      rw [Array.getElem?_eq_none_iff] at hn ⊢
      rwa [size_of_frame_eq h.frame]
    | some n =>
      rw [← hn]
      by_cases hlocked : n.isLocked = true
      · exact h.node ⟨n, hn, hlocked, hdriven⟩
      · -- The first component of an unlocked node would be an unknown.
        refine getElem?_eq_of_components_eq_zero h.frame hn (Nat.eq_zero_of_not_pos fun hpos => ?_)
        exact hnot 0 ⟨n, hn, by simpa using hlocked, hpos⟩

/-- Evaluating an equation keeps the boundary, whatever values the unknowns are given, and whether
it succeeds or fails. -/
theorem SharesBoundary.evaluate (hF : F.WellFormed) (ha : a.SharesBoundary F) (i : ComponentIndex)
    (hx : Newton.Over F.IsUnknown x) : (finalState (balance i x a)).SharesBoundary F :=
  differsIn_isUnknown_iff.mp (keeps_balance hF i hx a (differsIn_isUnknown_iff.mpr ha))

/-- So does any number of evaluations, one after the other. -/
private theorem SharesBoundary.foldl_evaluate (hF : F.WellFormed)
    {points : List (ComponentIndex × Unknowns α)}
    (hpoints : ∀ p ∈ points, Newton.Over F.IsUnknown p.2) (ha : a.SharesBoundary F) :
    (points.foldl (fun net p => finalState (balance p.1 p.2 net)) a).SharesBoundary F := by
  induction points generalizing a with
  | nil => exact ha
  | cons p points ih =>
    obtain ⟨hp, hpoints⟩ := List.forall_mem_cons.mp hpoints
    exact ih hpoints (ha.evaluate hF p.1 hp)

/-! ### The order of writing -/

/-- A network is determined by its `frame` and its potentials. -/
theorem eq_of_potentialAt_eq (ha : a.WellFormed) (h : a.frame = b.frame)
    (hpotential : ∀ i c, a.potentialAt i c = b.potentialAt i c) : a = b := by
  refine eq_of_frame_eq h fun i => ?_
  cases hn : a.nodes[i]? with
  | none =>
    have hm : b.nodes[i]? = none := by
      rw [Array.getElem?_eq_none_iff] at hn ⊢
      rwa [← size_of_frame_eq h]
    rw [hm]
  | some n =>
    obtain ⟨m, hm, hframe⟩ := getElem?_of_frame_eq h hn
    obtain ⟨hshape, -⟩ := Node.frame_eq_iff.mp hframe
    have hcols := ha.column hn
    rw [hm]
    refine congrArg some (DenseMatrix.ext_entry (congrArg Prod.fst hshape)
      (congrArg Prod.snd hshape) fun r c _ hc => ?_)
    obtain rfl : c = 0 := by omega
    rw [← potentialAt_eq hn, ← potentialAt_eq hm, hpotential]

/-- Values for different unknowns can be written in any order. -/
private theorem writeUnknowns_perm (hF : F.Clear) (ha : a.frame = F.frame)
    (hx : Newton.Over F.IsUnknown x) (hnodup : (x.map Prod.fst).Nodup) (hperm : x.Perm x')
    (h : writeUnknowns x a = .ok () b) : writeUnknowns x' a = .ok () b := by
  have hx' : Newton.Over F.IsUnknown x' := fun u hu => hx u (hperm.mem_iff.mpr hu)
  have hkeys := hperm.map Prod.fst
  cases h' : writeUnknowns x' a with
  | error cause b' => exact absurd h' fun h' => failsBy_writeUnknowns hF.calm hx' a ha cause b' h'
  | ok u b' =>
    have hframe : b.frame = F.frame := (keeps_frame_writeUnknowns x).of_ok ha h
    have hframe' : b'.frame = F.frame := (keeps_frame_writeUnknowns x').of_ok ha h'
    suffices hb : b' = b by rw [hb]
    refine eq_of_potentialAt_eq (hF.wellFormed.of_frame_eq hframe'.symm)
      (hframe'.trans hframe.symm) fun i c => ?_
    by_cases hic : ⟨i, c⟩ ∈ x.map Prod.fst
    · obtain ⟨⟨u, y⟩, hmem, rfl⟩ := List.mem_map.mp hic
      rw [potentialAt_writeUnknowns_of_mem hnodup hmem h,
        potentialAt_writeUnknowns_of_mem (hkeys.nodup_iff.mp hnodup) (hperm.mem_iff.mp hmem) h']
    · rw [potentialAt_writeUnknowns_of_not_mem hic h,
        potentialAt_writeUnknowns_of_not_mem (mt hkeys.mem_iff.mpr hic) h']

theorem SettledAt.perm (hF : F.Clear) (hx : Newton.Over F.IsUnknown x)
    (hnodup : (x.map Prod.fst).Nodup) (hperm : x.Perm x') (h : SettledAt x F a) :
    SettledAt x' F a where
  differs := ⟨h.differs.frame, fun hnot =>
    h.differs.node fun c hc => hnot c ((hperm.map Prod.fst).mem_iff.mp hc)⟩
  settled := by
    obtain ⟨c, d, hwrite, hframe, hsettle⟩ := h.settled
    have hc : c.frame = F.frame := by
      have hkept := keeps_frame_writeUnknowns (F := c) x c rfl
      rw [hwrite] at hkept
      exact hkept.symm.trans hframe
    exact ⟨c, d, writeUnknowns_perm hF hc hx hnodup hperm hwrite, hframe, hsettle⟩

/-! ### Values of equations -/

/-- An equation can be evaluated at any values of the unknowns, in whatever order they are given,
and its value is the `balance` at settled potentials. -/
private theorem SharesBoundary.exists_value (hF : F.Clear) (hlists : Lists x F)
    (hnodup : (x.map Prod.fst).Nodup) (hperm : x.Perm x') {i : ComponentIndex}
    (hi : F.IsUnknown i) (ha : a.SharesBoundary F) :
    ∃ a', balance i x' a = .ok (a'.balanceAt i.node i.component) a' ∧ SettledAt x F a' ∧
      a'.SharesBoundary F := by
  have hkeys' := hperm.map Prod.fst
  have hkeys : (· ∈ x'.map Prod.fst) = F.IsUnknown :=
    funext fun u => propext (hkeys'.mem_iff.symm.trans (hlists u))
  have hover : Newton.Over F.IsUnknown x' :=
    Newton.over_iff_keys.mpr fun u hu => (congrFun hkeys u).mp hu
  cases hbalance : balance i x' a with
  | error cause a' =>
    exact absurd hbalance fun h => failsBy_balance hF hi hover a ha.frame cause a' h
  | ok y a' =>
    have hdiffers : DiffersIn (· ∈ x'.map Prod.fst) F a := by
      rw [hkeys]
      exact differsIn_isUnknown_iff.mpr ha
    obtain ⟨hsettled, rfl, -⟩ := balance_eq_ok hF.wellFormed hdiffers hbalance
    have hshares := ha.evaluate hF.wellFormed i hover
    rw [hbalance] at hshares
    exact ⟨a', rfl, hsettled.perm hF hover (hkeys'.nodup_iff.mp hnodup) hperm.symm, hshares⟩

/-- **Equations do not remember.** In a `Reachable` network without a loop of driving elements, let
two maps give the same values to all unknowns, in whatever order, and let two states of the network
differ from it in potentials of unlocked and driven nodes only. Then every equation of the assembled
system can be evaluated at the one map in the one state and at the other map in the other state,
with the same value, and again the states that are left differ in potentials of unlocked and driven
nodes only. -/
theorem same_value_of_sharesBoundary [Scalar.Lawful α] {net : Network α}
    (hnet : Reachable (fun m => ¬m.Enters) net) (hloop : ¬net.HasLoop) {limit : Nat}
    {rs : List (Newton.Residual ComponentIndex α (Network α))} {guess : Unknowns α}
    (hsystem : net.generateSystem limit = .ok (rs, guess))
    {r : Newton.Residual ComponentIndex α (Network α)} (hr : r ∈ rs) {x x' : Unknowns α}
    (hx : (x.map Prod.fst).Perm (guess.map Prod.fst)) (hperm : x.Perm x') {a b : Network α}
    (ha : a.SharesBoundary net) (hb : b.SharesBoundary net) :
    ∃ y z a' b', r.value x a = .ok y a' ∧ r.value x' b = .ok z b' ∧ Scalar.Same y z ∧
      a'.SharesBoundary net ∧ b'.SharesBoundary net := by
  have hord := orderly_of_reachable hnet
  have hclear := clear_of_reachable hnet hord.free hloop
  have hroot := rootedWithin_of_not_hasLoop hclear.wellFormed hloop
  obtain ⟨hguess, rfl⟩ := generateSystem_eq_ok hsystem
  obtain ⟨⟨i, _⟩, hi, rfl⟩ := List.mem_map.mp hr
  have hunknown : net.IsUnknown i := over_isUnknown_of_unknowns hguess _ hi
  have hlists : Lists x net := fun u => hx.mem_iff.trans (mem_keys_of_unknowns hguess)
  have hnodup : (x.map Prod.fst).Nodup := hx.nodup_iff.mpr (nodup_keys_of_unknowns hguess)
  obtain ⟨a', hya, hsettled, hshares⟩ :=
    ha.exists_value hclear hlists hnodup (.refl x) hunknown
  obtain ⟨b', hzb, hsettled', hshares'⟩ := hb.exists_value hclear hlists hnodup hperm hunknown
  exact ⟨_, _, a', b', hya, hzb,
    hsettled.same_balanceAt hclear.wellFormed hroot hlists hsettled' i.node i.component,
    hshares, hshares'⟩

/-- The equation of the last node has the same value whether or not it has been evaluated at other
points before. -/
theorem same_value_divider : ∃ y a b,
    balance ⟨2, 0⟩ [(⟨2, 0⟩, 3)] divider = .ok y a ∧
    balance ⟨2, 0⟩ [(⟨2, 0⟩, 3)]
      ([(⟨2, 0⟩, [(⟨2, 0⟩, 7)]), (⟨2, 0⟩, [(⟨2, 0⟩, -5)])].foldl
        (fun net (p : ComponentIndex × Unknowns Rat) => finalState (balance p.1 p.2 net)) divider) =
      .ok y b := by
  obtain ⟨g, hsystem⟩ : ∃ g, divider.generateSystem ComponentIndex.usualLimit =
    .ok ([balanceResidual ⟨2, 0⟩], [(⟨2, 0⟩, g)]) := ⟨_, rfl⟩
  have hover (y : Rat) : Newton.Over divider.IsUnknown [(⟨2, 0⟩, y)] := by
    have hguess := over_isUnknown_of_unknowns (generateSystem_eq_ok hsystem).1
    rw [Newton.over_iff_keys] at hguess ⊢
    exact hguess
  have hpoints : ∀ p ∈ [((⟨2, 0⟩ : ComponentIndex), [((⟨2, 0⟩ : ComponentIndex), (7 : Rat))]),
      (⟨2, 0⟩, [(⟨2, 0⟩, -5)])], Newton.Over divider.IsUnknown p.2 :=
    List.forall_mem_cons.mpr ⟨hover 7, List.forall_mem_singleton.mpr (hover (-5))⟩
  have hafter := (SharesBoundary.refl divider).foldl_evaluate
    (wellFormed_of_reachable reachable_divider) hpoints
  obtain ⟨y, z, a, b, hy, hz, hsame, -, -⟩ := same_value_of_sharesBoundary reachable_divider
    not_hasLoop_divider hsystem List.mem_cons_self (x := [(⟨2, 0⟩, 3)]) (.refl _) (.refl _)
    (.refl divider) hafter
  obtain rfl := Scalar.Exact.same_iff.mp hsame
  exact ⟨y, a, b, hy, hz⟩

end FluxBalance.Network
