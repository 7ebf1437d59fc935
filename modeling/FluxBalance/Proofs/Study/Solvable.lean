import FluxBalance.Proofs.Study.Affinity
import FluxBalance.Proofs.Study.Loops

/-!
# Linear networks are solved

The equations of a `Linear` network are affine, and if conductive and driving elements lead from
every unlocked node to the boundary, they have one solution. Newton's method finds it by one update,
from whatever potentials it starts. So in exact arithmetic such a network is solved whatever the
margin is, provided that two iterates may be tried and that there is a system of equations at all: a
network without nodes is refused, and so is one with more nodes or components than can be indexed.

## Main definitions and results

* `Indexable`: there are nodes, and their coordinates are within the limit;
* `exists_solution`: a `Linear` network that is `Anchored` is solved.
-/

namespace FluxBalance.Network

open FluxBalance.Computation Relation

variable {α : Type} [Scalar α] {net : Network α}

/-! ### Setting up the equations -/

/-- There are nodes, and no coordinate of an unknown exceeds the limit. -/
structure Indexable (net : Network α) (limit : Nat) : Prop where
  nonempty : 0 < net.nodes.size
  nodes : net.nodes.size ≤ limit + 1
  components : ∀ {i : Nat} {n : Node α}, net.nodes[i]? = some n → n.components ≤ limit + 1

omit [Scalar α] in
/-- The widest node is not wider than a bound on all nodes. -/
private theorem widest_le {ns : List (Node α)} {bound : Nat} (h : ∀ n ∈ ns, n.components ≤ bound) :
    ∀ {w : Nat}, w ≤ bound → ns.foldl (fun w n => Nat.max w n.components) w ≤ bound := by
  induction ns with
  | nil => exact id
  | cons n ns ih =>
    obtain ⟨hn, hns⟩ := List.forall_mem_cons.mp h
    exact fun hw => ih hns (Nat.max_le.mpr ⟨hw, hn⟩)

omit [Scalar α] in
/-- The coordinates of an `Indexable` network are accepted. -/
private theorem checkIndexRange_eq_ok {limit : Nat} (h : net.Indexable limit) :
    net.checkIndexRange limit = .ok () := by
  have hnonempty : net.nodes.isEmpty = false := by
    rw [Array.isEmpty_eq_false_iff_exists_mem]
    exact ⟨_, Array.getElem_mem h.nonempty⟩
  have hnodes : ¬limit < net.nodes.size - 1 := by
    have := h.nodes
    omega
  have hwidest : ¬limit < net.nodes.foldl (fun w n => Nat.max w n.components) 0 - 1 := by
    rw [← Array.foldl_toList]
    have hall : ∀ n ∈ net.nodes.toList, n.components ≤ limit + 1 := fun n hn => by
      obtain ⟨i, hi⟩ := Array.mem_iff_getElem?.mp (Array.mem_toList_iff.mp hn)
      exact h.components hi
    have := widest_le hall (Nat.zero_le _)
    omega
  unfold checkIndexRange
  rw [hnonempty, if_neg Bool.false_ne_true]
  dsimp only
  rw [if_neg hnodes, if_neg hwidest]
  rfl

/-! ### Solving -/

/-- **A `Linear` network is solved from whatever potentials it starts**, in exact arithmetic and
with any positive margin, as soon as two iterates may be tried: if there is no loop of driving
elements, and conductive and driving elements lead from every unlocked node to a locked one that no
element drives. -/
theorem exists_solution [Scalar.Exact α] (hnet : Reachable (fun m => ¬m.Enters) net)
    (hlinear : net.Linear) (hloop : ¬net.HasLoop) (hanchored : net.Anchored) {indexLimit : Nat}
    (hindices : net.Indexable indexLimit) {margin : α} (hmargin : Scalar.lt 0 margin = true)
    {limit : Int} (hlimit : 2 ≤ limit) :
    ∃ sol after, solve margin limit indexLimit net = .ok sol after := by
  have hord := orderly_of_reachable hnet
  have hclear := clear_of_reachable hnet hord.free hloop
  obtain ⟨guess, hguess⟩ := exists_unknowns hclear.readable
  obtain ⟨saved, hsaved⟩ := exists_snapshot hclear.readable
  have hnodup := nodup_keys_of_unknowns hguess
  have hkeys : ∀ u, u ∈ guess.map Prod.fst ↔ net.IsUnknown u := fun u => mem_keys_of_unknowns hguess
  obtain ⟨M, b, hM⟩ := exists_coefficients hclear hord hlinear hnodup hkeys
  -- The equations are affine with independent columns, so the iteration finds a point.
  have hlength : (guess.map Prod.fst).length = guess.length := List.length_map _
  have heval : Newton.Evaluates (DiffersIn (· ∈ guess.map Prod.fst) net) (guess.map Prod.fst)
      (guess.map fun u => balanceResidual u.1) (Newton.affine M b guess.length) := by
    rw [← hlength]
    exact hM.evaluates hclear hkeys rfl
  have hindependent : Newton.IndependentColumns M guess.length := by
    rw [← hlength]
    exact hM.independent hclear hord hlinear hanchored hnodup hkeys
  have hstep : (Newton.defaultStep : α) ≠ 0 := Scalar.Exact.ofRat_ne_zero (by decide)
  obtain ⟨x, s, hx, hxkeys, hs⟩ := Newton.solveSystem_of_affine (.ofMargin margin limit) rfl
    hstep hmargin hlimit heval (List.length_map _) hindependent (.refl _ net)
  have hover : Newton.Over net.IsUnknown x :=
    Newton.over_iff_keys.mpr fun k hk => (hkeys k).mp (hxkeys ▸ hk)
  obtain ⟨sol, after, hfinish⟩ := (failsBy_finish hclear hover).exists_ok hs.frame
  have hbody : solveFrom (guess.map fun u => balanceResidual u.1) guess (.ofMargin margin limit) net
      = .ok sol after := bind_eq_ok.mpr ⟨x, s, hx, hfinish⟩
  have hsystem : net.generateSystem indexLimit =
      .ok (guess.map fun u => balanceResidual u.1, guess) :=
    except_bind_eq_ok.mpr ⟨(), checkIndexRange_eq_ok hindices,
      except_bind_eq_ok.mpr ⟨guess, hguess, rfl⟩⟩
  refine ⟨sol, after, bind_eq_ok.mpr ⟨_, net, look_eq_ok_iff.mpr ⟨hsystem, rfl⟩, ?_⟩⟩
  refine bind_eq_ok.mpr ⟨saved, net, look_eq_ok_iff.mpr ⟨hsaved, rfl⟩, ?_⟩
  unfold restoring
  rw [hbody]

/-! ### The divider -/

private theorem linear_divider : divider.Linear := by
  have hkinds : ∀ e ∈ divider.elements.toList, (e.kind = .conductive ∧
      e.gain = (DenseMatrix.identity e.gain.rows).scale 1) ∨ e.kind = .potentialDrive := by
    decide +kernel
  intro e he
  rcases hkinds e he with ⟨hk, hg⟩ | hk
  · exact .inl ⟨hk, 1, by decide, hg⟩
  · exact .inr (.inr hk)

/-- The only unlocked node is joined to the grounded one. -/
private theorem anchored_divider : divider.Anchored := by
  have hlocks : divider.nodes.toList.map (·.isLocked) = [true, true, false] := by decide +kernel
  have hlock {i : Nat} {n : Node Rat} (hn : divider.nodes[i]? = some n) :
      [true, true, false][i]? = some n.isLocked := by
    rw [← hlocks, List.getElem?_map, Array.getElem?_toList, hn]
    rfl
  have hjoined : ∃ e ∈ divider.elements.toList,
      e.kind = .conductive ∧ e.input = 2 ∧ e.output = 0 := by decide +kernel
  intro i n hn hunlocked
  have hi := hlock hn
  rw [hunlocked] at hi
  obtain rfl : i = 2 := by
    rcases i with _ | _ | _ | i <;> simp at hi ⊢
  obtain ⟨e, he, hk, hin, hout⟩ := hjoined
  obtain ⟨m, hm⟩ : ∃ m, divider.nodes[0]? = some m := ⟨_, rfl⟩
  refine ⟨0, .single ⟨e, he, .inl hk, .inl ⟨hin, hout⟩⟩, m, hm,
    (Option.some.inj (hlock hm)).symm, fun e he h0 => ?_⟩
  have hone := (drives_divider (drives_of_mem he)).2
  omega

/-- The coordinates of `divider` are within the usual limit. -/
private theorem indexable_divider : divider.Indexable ComponentIndex.usualLimit := by
  have hsize : divider.nodes.size = 3 := by decide +kernel
  have hwidths : ∀ n ∈ divider.nodes.toList, n.components ≤ 1 := by decide +kernel
  refine ⟨by omega, ?_, fun {i n} hn => ?_⟩
  · rw [hsize]
    decide
  · have hn := hwidths n (Array.mem_toList_iff.mpr (Array.mem_of_getElem? hn))
    omega

/-- Two iterates are enough for the `divider`. -/
theorem exists_solution_divider : ∃ sol after,
    solve (mkRat 1 1000000000) 2 ComponentIndex.usualLimit divider = .ok sol after :=
  exists_solution reachable_divider linear_divider not_hasLoop_divider anchored_divider
    indexable_divider (by decide) le_rfl

/-! ### Networks that are refused -/

/-- Some locked nodes, and no elements. -/
def pinned (k : Nat) : Network Rat :=
  ⟨Array.replicate k { Node.zero 1 with isLocked := true }, #[], []⟩

/-- A locked node that somebody is about to change. -/
def occupied : Network Rat := (Move.enter .exclusive 0).after (pinned 1)

/-- A network without elements meets the conditions if all of its nodes are locked. -/
private theorem conditions_of_locked (helements : net.elements = #[])
    (hlocked : ∀ n ∈ net.nodes.toList, n.isLocked = true) :
    net.Linear ∧ ¬net.HasLoop ∧ net.Anchored := by
  refine ⟨fun e he => ?_, fun hloop => ?_, fun {i n} hn hunlocked => ?_⟩
  · rw [helements] at he
    cases he
  · obtain ⟨e, he, -⟩ := hloop.exists_driver
    rw [drivers, helements] at he
    cases he
  · rw [hlocked n (Array.mem_toList_iff.mpr (Array.mem_of_getElem? hn))] at hunlocked
    cases hunlocked

/-- One locked node is what configuring a study with one node hands over. -/
private theorem reachable_pinned_one : Reachable (fun _ => True) (pinned 1) := by
  have hnodes : (Study.new (α := Rat) none).addNodes 1 1 =
      .ok ((0, 1), ⟨none, some ⟨#[Node.zero 1], #[], []⟩⟩) := rfl
  have hground : (⟨none, some ⟨#[Node.zero 1], #[], []⟩⟩ : Study Rat).groundNode 0 =
      .ok ⟨none, some (pinned 1)⟩ := rfl
  exact .configured (.groundNode (.addNodes (.new none) hnodes) hground) rfl

/-- Two locked nodes are what configuring a study with two nodes hands over. -/
private theorem reachable_pinned_two : Reachable (fun m => ¬m.Enters) (pinned 2) := by
  let locked : Node Rat := { Node.zero 1 with isLocked := true }
  have hnodes : (Study.new (α := Rat) none).addNodes 2 1 =
      .ok ((0, 2), ⟨none, some ⟨#[Node.zero 1, Node.zero 1], #[], []⟩⟩) := rfl
  have hfirst : (⟨none, some ⟨#[Node.zero 1, Node.zero 1], #[], []⟩⟩ : Study Rat).groundNode 0 =
      .ok ⟨none, some ⟨#[locked, Node.zero 1], #[], []⟩⟩ := rfl
  have hsecond : (⟨none, some ⟨#[locked, Node.zero 1], #[], []⟩⟩ : Study Rat).groundNode 1 =
      .ok ⟨none, some (pinned 2)⟩ := rfl
  exact .configured (.groundNode (.groundNode (.addNodes (.new none) hnodes) hfirst) hsecond) rfl

/-- The conditions do not rule out what solving refuses: a network without nodes, one of whose nodes
somebody is inside, and one with more nodes than can be indexed. -/
theorem refused_of_pinned :
    (Reachable (fun m => ¬m.Enters) (empty : Network Rat) ∧ (empty : Network Rat).Linear ∧
      ¬(empty : Network Rat).HasLoop ∧ (empty : Network Rat).Anchored ∧
      ∀ margin limit indexLimit,
        solve margin limit indexLimit (empty : Network Rat) = .error .noNodes empty) ∧
    (Reachable (fun _ => True) occupied ∧ occupied.Linear ∧ ¬occupied.HasLoop ∧ occupied.Anchored ∧
      ∀ margin limit, ∃ cause,
        solve margin limit ComponentIndex.usualLimit occupied = .error cause occupied) ∧
    Reachable (fun m => ¬m.Enters) (pinned 2) ∧ (pinned 2).Linear ∧ ¬(pinned 2).HasLoop ∧
      (pinned 2).Anchored ∧
      ∀ margin limit, ∃ cause, solve margin limit 0 (pinned 2) = .error cause (pinned 2) := by
  have hempty : (empty : Network Rat).Linear ∧ _ := conditions_of_locked rfl (by decide)
  have hoccupied : occupied.Linear ∧ _ := conditions_of_locked rfl (by decide)
  have hpinned : (pinned 2).Linear ∧ _ := conditions_of_locked rfl (by decide)
  exact ⟨⟨.configured (.new none) rfl, hempty.1, hempty.2.1, hempty.2.2, fun _ _ _ => rfl⟩,
    ⟨.moved reachable_pinned_one trivial trivial, hoccupied.1, hoccupied.2.1, hoccupied.2.2,
      fun margin limit => ⟨_, rfl⟩⟩,
    reachable_pinned_two, hpinned.1, hpinned.2.1, hpinned.2.2, fun margin limit => ⟨_, rfl⟩⟩

end FluxBalance.Network
