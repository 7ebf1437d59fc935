import FluxBalance.Proofs.Network.Passes
import FluxBalance.Proofs.Study.Evaluation

/-!
# Evaluations at one point agree

The unknowns of a network are all components of all unlocked nodes. So if values for all of them
are written into networks that differ in nothing else, the networks have the same potentials once
they have been settled, and the same balances. What was in the networks before does not matter:
the equations that an iteration evaluates one after the other, each in the network that the last
evaluation has left, are functions of the unknowns.

## Main definitions and results

* `SettledAt`: the network is what settling leaves after a point has been written;
* `SettledAt.same_potentialAt`, `SettledAt.same_balanceAt`: two such networks have the same
  potentials and balances.
-/

namespace FluxBalance.Network

open FluxBalance.Computation

variable {α : Type}

/-! ### The unknowns -/

section

variable [Scalar α]

/-- The unknowns of one node. -/
private theorem keys_of_nodeUnknowns {i : Nat} {n : Node α} {us : Unknowns α}
    (h : nodeUnknowns i n = .ok us) : us.map Prod.fst =
      if n.isLocked then [] else (List.range n.components).map fun c => ⟨i, c⟩ := by
  unfold nodeUnknowns at h
  split at h
  · rename_i hlocked
    cases h
    rw [if_pos hlocked, List.map_nil]
  · rename_i hlocked
    obtain ⟨p, -, h⟩ := except_bind_eq_ok.mp h
    cases h
    rw [if_neg hlocked, List.map_map]
    rfl

/-- The `unknowns` are listed by node and then by component. -/
private theorem keys_of_unknowns {net : Network α} {guess : Unknowns α}
    (h : net.unknowns = .ok guess) :
    guess.map Prod.fst = net.nodes.toList.zipIdx.flatMap fun p => if p.1.isLocked then []
      else (List.range p.1.components).map fun c => ⟨p.2, c⟩ := by
  obtain ⟨parts, hparts, h⟩ := except_bind_eq_ok.mp h
  cases h
  have hkeys : (net.nodes.toList.zipIdx.map fun p => if p.1.isLocked then []
      else (List.range p.1.components).map fun c => (⟨p.2, c⟩ : ComponentIndex)) =
        parts.map (List.map Prod.fst) := by
    rw [← List.forall₂_eq_eq_eq, List.forall₂_map_left_iff, List.forall₂_map_right_iff]
    exact (except_mapM_eq_ok.mp hparts).imp fun p us hus => (keys_of_nodeUnknowns hus).symm
  rw [List.map_flatten, ← hkeys, List.flatMap_def]

/-- **The `unknowns` of a network** are the `components` of its unlocked nodes. -/
theorem mem_keys_of_unknowns {net : Network α} {guess : Unknowns α}
    (h : net.unknowns = .ok guess) {u : ComponentIndex} :
    u ∈ guess.map Prod.fst ↔ ∃ n, net.nodes[u.node]? = some n ∧ n.isLocked = false ∧
      u.component < n.components := by
  rw [keys_of_unknowns h]
  simp only [List.mem_flatMap, Prod.exists, List.mem_zipIdx_iff_getElem?, Array.getElem?_toList]
  constructor
  · rintro ⟨n, i, hn, hu⟩
    split at hu
    · cases hu
    · rename_i hlocked
      obtain ⟨c, hc, rfl⟩ := List.mem_map.mp hu
      exact ⟨n, hn, by simpa using hlocked, List.mem_range.mp hc⟩
  · rintro ⟨n, hn, hlocked, hc⟩
    refine ⟨n, u.node, hn, ?_⟩
    rw [hlocked]
    exact List.mem_map.mpr ⟨u.component, List.mem_range.mpr hc, rfl⟩

/-- No unknown is listed twice. -/
theorem nodup_keys_of_unknowns {net : Network α} {guess : Unknowns α}
    (h : net.unknowns = .ok guess) : (guess.map Prod.fst).Nodup := by
  rw [keys_of_unknowns h, List.nodup_flatMap]
  have hnode : ∀ {p : Node α × Nat} {u : ComponentIndex}, u ∈ (if p.1.isLocked then []
      else (List.range p.1.components).map fun c => (⟨p.2, c⟩ : ComponentIndex)) →
      u.node = p.2 := by
    intro p u hu
    split at hu
    · cases hu
    · obtain ⟨c, -, rfl⟩ := List.mem_map.mp hu
      rfl
  constructor
  · intro p _
    split
    · exact List.nodup_nil
    · exact List.nodup_range.map fun c c' hc => congrArg ComponentIndex.component hc
  · -- Nodes at different positions have no unknown in common.
    have hpositions : (net.nodes.toList.zipIdx.map Prod.snd).Nodup := by
      rw [List.zipIdx_map_snd]
      exact List.nodup_range'
    refine (List.pairwise_map.mp hpositions).imp fun hne u hu hu' => hne ?_
    exact (hnode hu).symm.trans (hnode hu')

/-! ### Written values -/

/-- What is written for an unknown is read there afterwards. -/
private theorem potentialAt_setComponent {net : Network α} {i : Nat} {n n' : Node α} {c : Nat}
    {y : α} (hn : net.nodes[i]? = some n) (hn' : n.setComponent c y = .ok n') (j k : Nat) :
    (net.setNode i n').potentialAt j k = if i = j ∧ c = k then y else net.potentialAt j k := by
  have hi : i < net.nodes.size := (Array.getElem?_eq_some_iff.mp hn).1
  obtain ⟨-, p, hp, rfl⟩ := Node.setComponent_eq_ok_iff.mp hn'
  obtain ⟨r, z, hr, hz, hrow, hcol, rfl⟩ := DenseMatrix.set_eq_ok_iff.mp hp
  obtain rfl : c = r := by omega
  obtain rfl : z = 0 := by omega
  by_cases hij : i = j
  · subst hij
    rw [potentialAt_setNode_self hi, potentialAt_eq hn]
    by_cases hk : k < n.potential.rows
    · rw [DenseMatrix.entry_replace _ _ hk hcol]
      simp
    · have hne : ¬(i = i ∧ c = k) := by omega
      rw [if_neg hne, DenseMatrix.entry_outside _ (by simp [hk]),
        DenseMatrix.entry_outside _ (by simp [hk])]
  · rw [potentialAt_setNode_of_ne hi hij, if_neg fun h => hij h.1]

private theorem writeUnknowns_cons_eq_ok {u : ComponentIndex} {y : α} {rest : Unknowns α}
    {net net' : Network α} (h : writeUnknowns ((u, y) :: rest) net = .ok () net') :
    ∃ net₁, writeUnknowns rest net₁ = .ok () net' ∧ ∀ j k, net₁.potentialAt j k =
      if u = ⟨j, k⟩ then y else net.potentialAt j k := by
  obtain ⟨_, net₁, hchange, h⟩ := bind_eq_ok.mp h
  obtain ⟨i, n, n', hi, hn, hn', rfl⟩ := changeNode_eq_ok_iff.mp hchange
  obtain rfl : u.node = i := by omega
  refine ⟨_, h, fun j k => ?_⟩
  rw [potentialAt_setComponent hn hn']
  cases u
  simp only [ComponentIndex.mk.injEq]

/-- Networks agree in a component after the same values have been written, if they agreed in it
before or if it has been written. -/
private theorem potentialAt_writeUnknowns {i c : Nat} :
    ∀ {x : Unknowns α} {a b a' b' : Network α},
      a.potentialAt i c = b.potentialAt i c ∨ ⟨i, c⟩ ∈ x.map Prod.fst →
      writeUnknowns x a = .ok () a' → writeUnknowns x b = .ok () b' →
      a'.potentialAt i c = b'.potentialAt i c
  | [], a, b, a', b', hic, ha, hb => by
    obtain ⟨-, rfl⟩ := pure_eq_ok.mp ha
    obtain ⟨-, rfl⟩ := pure_eq_ok.mp hb
    simpa using hic
  | (u, y) :: rest, a, b, a', b', hic, ha, hb => by
    obtain ⟨a₁, ha, ha₁⟩ := writeUnknowns_cons_eq_ok ha
    obtain ⟨b₁, hb, hb₁⟩ := writeUnknowns_cons_eq_ok hb
    refine potentialAt_writeUnknowns ?_ ha hb
    -- After the first value the networks agree in the component, or it is among the remaining ones.
    rw [ha₁, hb₁]
    by_cases hu : u = ⟨i, c⟩
    · rw [if_pos hu, if_pos hu]
      exact .inl rfl
    · rw [if_neg hu, if_neg hu]
      exact hic.imp id fun h => (List.mem_cons.mp h).resolve_left fun h => hu h.symm

/-- What is not written stays. -/
theorem potentialAt_writeUnknowns_of_not_mem {i c : Nat} :
    ∀ {x : Unknowns α} {net net' : Network α}, ⟨i, c⟩ ∉ x.map Prod.fst →
      writeUnknowns x net = .ok () net' → net'.potentialAt i c = net.potentialAt i c
  | [], net, net', _, h => by
    obtain ⟨-, rfl⟩ := pure_eq_ok.mp h
    rfl
  | (u, y) :: rest, net, net', hic, h => by
    obtain ⟨net₁, hwrite, hnet₁⟩ := writeUnknowns_cons_eq_ok h
    have hu : u ≠ ⟨i, c⟩ := fun hu => hic (hu ▸ List.mem_cons_self)
    have hrest : ⟨i, c⟩ ∉ rest.map Prod.fst := fun hrest => hic (List.mem_cons_of_mem _ hrest)
    rw [potentialAt_writeUnknowns_of_not_mem hrest hwrite, hnet₁, if_neg hu]

/-- The value that is written for an unknown stays if no other one is written for it. -/
theorem potentialAt_writeUnknowns_of_mem {u : ComponentIndex} {y : α} :
    ∀ {x : Unknowns α} {net net' : Network α}, (x.map Prod.fst).Nodup → (u, y) ∈ x →
      writeUnknowns x net = .ok () net' → net'.potentialAt u.node u.component = y
  | (v, z) :: rest, net, net', hnodup, hmem, h => by
    obtain ⟨net₁, hwrite, hnet₁⟩ := writeUnknowns_cons_eq_ok h
    obtain ⟨hv, hrest⟩ := List.nodup_cons.mp hnodup
    rcases List.mem_cons.mp hmem with heq | hmem
    · cases heq
      rw [potentialAt_writeUnknowns_of_not_mem hv hwrite, hnet₁, if_pos rfl]
    · exact potentialAt_writeUnknowns_of_mem hrest hmem hwrite

/-! ### Agreement -/

/-- The point has a value for each unknown of the network and for nothing else. -/
def Lists (x : Unknowns α) (net : Network α) : Prop :=
  ∀ u : ComponentIndex, u ∈ x.map Prod.fst ↔
    ∃ n, net.nodes[u.node]? = some n ∧ n.isLocked = false ∧ u.component < n.components

/-- The network is what settling has left after the point had been written into a network that
differed from `F` in the unknowns of the point only. -/
structure SettledAt (x : Unknowns α) (F net : Network α) : Prop where
  differs : DiffersIn (· ∈ x.map Prod.fst) F net
  settled : ∃ a b, writeUnknowns x a = .ok () b ∧ b.frame = F.frame ∧ settle b = .ok () net

/-- What settling leaves after the unknowns have been written is `SettledAt` them. -/
theorem settledAt_of_settle {F a b net : Network α} {x : Unknowns α} (hF : F.WellFormed)
    (ha : DiffersIn (· ∈ x.map Prod.fst) F a) (hwrite : writeUnknowns x a = .ok () b)
    (hsettle : settle b = .ok () net) : SettledAt x F net := by
  have hb := (keeps_writeUnknowns (Newton.over_iff_keys.mpr fun _ h => h)).of_ok ha hwrite
  exact ⟨(keeps_settle_differsIn hF).of_ok hb hsettle, a, b, hwrite, hb.frame, hsettle⟩

/-- An equation has the value of a `balance` at settled potentials. -/
theorem balance_eq_ok {F net net' : Network α} {i : ComponentIndex} {x : Unknowns α} {y : α}
    (hF : F.WellFormed) (hnet : DiffersIn (· ∈ x.map Prod.fst) F net)
    (h : balance i x net = .ok y net') :
    SettledAt x F net' ∧ y = net'.balanceAt i.node i.component ∧ net'.Resolves i.node := by
  obtain ⟨_, a, hwrite, h⟩ := bind_eq_ok.mp h
  obtain ⟨_, b, hsettle, h⟩ := bind_eq_ok.mp h
  obtain ⟨d, b', hd, h⟩ := bind_eq_ok.mp h
  obtain ⟨hy, rfl⟩ := look_eq_ok_iff.mp h
  have hsettled := settledAt_of_settle hF hnet hwrite hsettle
  have hwf := hF.of_frame_eq hsettled.differs.frame.symm
  obtain ⟨k, w, hk, rfl, -, htab, hres⟩ := discrepancy_eq_ok hwf hd
  obtain rfl : i.node = k := by omega
  obtain ⟨r, z, hr, hz, hrow, -, rfl⟩ := DenseMatrix.get_eq_ok_iff.mp (fitting_eq_ok_iff.mp hy)
  obtain rfl : i.component = r := by omega
  obtain rfl : z = 0 := by omega
  exact ⟨hsettled, htab.entry _ (htab.rows ▸ hrow), hres⟩

/-- Where no element drives, a potential that is not unknown stays. -/
theorem SettledAt.potentialAt_of_not_mem {F net : Network α} {x : Unknowns α} (hx : Lists x F)
    (h : SettledAt x F net) {i c : Nat} (hi : ∀ e ∈ F.drivers, e.driven ≠ i)
    (hkey : ⟨i, c⟩ ∉ x.map Prod.fst) : net.potentialAt i c = F.potentialAt i c := by
  cases hF : F.nodes[i]? with
  | none =>
    have hnode : net.nodes[i]? = none := by
      rw [Array.getElem?_eq_none_iff] at hF ⊢
      exact size_of_frame_eq h.differs.frame ▸ hF
    rw [potentialAt, potentialAt, hF, hnode]
  | some n =>
    by_cases hlocked : n.isLocked = true
    · have hnot (k : Nat) : ⟨i, k⟩ ∉ x.map Prod.fst := by
        intro hk
        obtain ⟨m, hm, hunlocked, -⟩ := (hx _).mp hk
        rw [hF] at hm
        cases hm
        rw [hlocked] at hunlocked
        cases hunlocked
      rw [potentialAt, potentialAt, h.differs.node hnot hi]
    · have hc : ¬c < n.components := fun hc =>
        hkey ((hx ⟨i, c⟩).mpr ⟨n, hF, by simpa using hlocked, hc⟩)
      have hwidth : F.width? i = some n.components := by rw [width?, hF]; rfl
      rw [potentialAt_outside hwidth hc,
        potentialAt_outside ((width?_of_frame_eq h.differs.frame i).trans hwidth) hc]

/-- Networks that have been `SettledAt` one point agree where no element drives. -/
theorem SettledAt.undriven {F a b : Network α} {x : Unknowns α} (hx : Lists x F)
    (ha : SettledAt x F a) (hb : SettledAt x F b) {i : Nat}
    (hi : ∀ e ∈ F.drivers, e.driven ≠ i) (c : Nat) : a.potentialAt i c = b.potentialAt i c := by
  -- A potential that is an unknown has been written, any other is as in `F`.
  by_cases hkey : ⟨i, c⟩ ∈ x.map Prod.fst
  · obtain ⟨a₀, a₁, hwritea, hframea, hsettlea⟩ := ha.settled
    obtain ⟨b₀, b₁, hwriteb, hframeb, hsettleb⟩ := hb.settled
    rw [potentialAt_of_settle (drivers_of_frame_eq hframea ▸ hi) hsettlea,
      potentialAt_of_settle (drivers_of_frame_eq hframeb ▸ hi) hsettleb,
      potentialAt_writeUnknowns (.inr hkey) hwritea hwriteb]
  · rw [ha.potentialAt_of_not_mem hx hi hkey, hb.potentialAt_of_not_mem hx hi hkey]

/-- A network that is `SettledAt` unknowns is settled. -/
theorem SettledAt.isSettled {F net : Network α} {x : Unknowns α} (h : SettledAt x F net) :
    net.IsSettled := by
  obtain ⟨_, b, -, hframe, hsettle⟩ := h.settled
  exact ⟨b, hframe.trans h.differs.frame.symm, hsettle⟩

variable [Scalar.Lawful α]

theorem SettledAt.holds {F net : Network α} {x : Unknowns α} (hwf : F.WellFormed)
    (hord : F.Orderly) (hroot : ∀ i, F.RootedWithin F.drivers.length i)
    (h : SettledAt x F net) : ∀ e ∈ net.drivers, e.Holds Scalar.Same net := by
  obtain ⟨a, b, -, hframe, hsettle⟩ := h.settled
  have hdrivers : net.drivers = b.drivers :=
    drivers_of_frame_eq (h.differs.frame.trans hframe.symm)
  rw [hdrivers]
  refine holds_of_settle (hwf.of_frame_eq hframe.symm) (hord.of_frame_eq hframe.symm)
    (fun i => ?_) hsettle
  rw [drivers_of_frame_eq hframe]
  exact (hroot i).of_frame_eq hframe.symm

/-- **Networks that have been `SettledAt` one point have the same potentials.** -/
theorem SettledAt.same_potentialAt {F a b : Network α} {x : Unknowns α} (hwf : F.WellFormed)
    (hroot : ∀ i, F.RootedWithin F.drivers.length i) (hx : Lists x F)
    (ha : SettledAt x F a) (hb : SettledAt x F b) (i c : Nat) :
    Scalar.Same (a.potentialAt i c) (b.potentialAt i c) := by
  have hframe := ha.differs.frame
  refine same_of_isSettled (hwf.of_frame_eq hframe.symm) (fun j => ?_) ha.isSettled hb.isSettled
    (hframe.trans hb.differs.frame.symm) (fun j hj k => .inl ?_) i c
  · rw [drivers_of_frame_eq hframe]
    exact (hroot j).of_frame_eq hframe.symm
  · exact ha.undriven hx hb (drivers_of_frame_eq hframe ▸ hj) k

/-- **Networks that have been `SettledAt` one point have the same balances.** -/
theorem SettledAt.same_balanceAt {F a b : Network α} {x : Unknowns α} (hwf : F.WellFormed)
    (hroot : ∀ i, F.RootedWithin F.drivers.length i) (hx : Lists x F)
    (ha : SettledAt x F a) (hb : SettledAt x F b) (i c : Nat) :
    Scalar.Same (a.balanceAt i c) (b.balanceAt i c) :=
  Network.same_balanceAt (ha.differs.frame.trans hb.differs.frame.symm)
    (ha.same_potentialAt hwf hroot hx hb) i c

end

end FluxBalance.Network
