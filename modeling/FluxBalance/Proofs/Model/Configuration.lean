import FluxBalance.Proofs.Model.Building

/-!
# What becomes of the entries of a configuration

Keys are read leniently, so entries with different keys may be for one node. Every entry of an
accepted document is for a node of the model, but only the last one for each node is kept: it is
what the node is built with. So entries are lost exactly if two keys stand for the same node, which
cannot happen if all keys are written plainly.

## Main definitions and results

* `Records`, `records_of_ofJson`: what a model keeps of the entries of its document.
-/

namespace FluxBalance

open FluxBalance.Computation

namespace Model

/-- If no node is named twice, every entry is the last one for its node. -/
private theorem isLast_of_nodup {β : Type} {e : Int × β} {es : List (Int × β)}
    (h : (es.map (·.1)).Nodup) (he : e ∈ es) : IsLast e es := by
  rw [← mem_mergeEntries, mergeEntries_eq_self h]
  exact he

/-- Different keys that are written plainly stand for different nodes. -/
private theorem nodup_of_plain {entries : List (String × Json)}
    {given : List (Int × NodeConfiguration)} (h : List.Forall₂ Gives entries given)
    (hplain : ∀ e ∈ entries, ∃ n : Nat, e.1 = toString n)
    (hnodup : (entries.map (·.1)).Nodup) : (given.map (·.1)).Nodup := by
  induction h with
  | nil => simp
  | @cons entry p entries given hgives hrest ih =>
    obtain ⟨⟨n, hn⟩, hplain⟩ := List.forall_mem_cons.mp hplain
    rw [List.map_cons, List.nodup_cons] at hnodup ⊢
    refine ⟨fun hmem => hnodup.1 ?_, ih hplain hnodup.2⟩
    obtain ⟨q, hq, hqp⟩ := List.mem_map.mp hmem
    obtain ⟨other, hother, hkey, -⟩ := exists_of_mem_of_forall₂ hrest q hq
    obtain ⟨k, hk⟩ := hplain other hother
    -- Both keys are read as the number that they are written for.
    have hread := hgives.1
    rw [hn, NodeKey.read?_toString, Option.some_inj] at hread
    rw [hk, NodeKey.read?_toString, Option.some_inj] at hkey
    obtain rfl : k = n := by omega
    rw [hn, ← hk]
    exact List.mem_map_of_mem hother

/-- What a model keeps of the entries of its document. -/
structure Records (m : Model) (entries : List (String × Json))
    (given : List (Int × NodeConfiguration)) : Prop where
  gives : List.Forall₂ Gives entries given
  exist : ∀ p ∈ given, 0 ≤ p.1 ∧ p.1 < m.nodes
  /-- The last state that is given for a node is kept. -/
  mem_iff : ∀ {i : Nat} {c : NodeConfiguration},
    (i, c) ∈ m.configuration ↔ IsLast ((i : Int), c) given
  length_eq_iff : m.configuration.length = entries.length ↔ (given.map (·.1)).Nodup
  all_of_nodup : (given.map (·.1)).Nodup → ∀ p ∈ given, (p.1.toNat, p.2) ∈ m.configuration
  nodup_of_plain : (∀ e ∈ entries, ∃ n : Nat, e.1 = toString n) →
    (entries.map (·.1)).Nodup → (given.map (·.1)).Nodup

/-- The states of the nodes of a model are the last ones that its document gives. -/
private theorem exists_records {j : Json} {m : Model} (h : ofJson j = .ok m) :
    ∃ given, m.Records (writtenEntries j) given := by
  obtain ⟨given, hgives, hmerged, -, hm⟩ := exists_gives_of_ofJson h
  have hexist : ∀ p ∈ given, 0 ≤ p.1 ∧ p.1 < m.nodes := by
    intro p hp
    obtain ⟨q, hq, hqp⟩ := List.mem_map.mp (mem_keys_mergeEntries.mpr (List.mem_map_of_mem hp))
    exact hqp ▸ hmerged q hq
  have hmem {i : Nat} {c : NodeConfiguration} :
      (i, c) ∈ m.configuration ↔ IsLast ((i : Int), c) given := by
    rw [hm, ← mem_mergeEntries, List.mem_map]
    constructor
    · rintro ⟨p, hp, heq⟩
      obtain ⟨hi, rfl⟩ := Prod.mk.inj heq
      rw [← hi, Int.toNat_of_nonneg (hmerged p hp).1]
      exact hp
    · exact fun hmem => ⟨_, hmem, rfl⟩
  refine ⟨given, hgives, hexist, hmem, ?_, fun hnodup p hp => ?_, nodup_of_plain hgives⟩
  · rw [hm, List.length_map, hgives.length_eq, length_mergeEntries_eq_iff]
  · rw [hmem, Int.toNat_of_nonneg (hexist p hp).1]
    exact isLast_of_nodup hnodup hp

/-- **What is kept of the entries of a configuration.** Every entry of an accepted document gives
a state of a node of the model. The states of the nodes are the last ones that are given for
them, so there are as many of them as entries exactly if no node is named twice, and then every
state that is given is kept; this is so if the keys are different and written plainly. In the
network that is built, the node of a state that is kept has its metadata and, unless an element
drives it, its potential and its lock. -/
theorem records_of_ofJson {j : Json} {m : Model} (h : ofJson j = .ok m) :
    (∃ given, m.Records (writtenEntries j) given) ∧
    ∀ net, m.build = .ok net → ∀ p ∈ m.configuration, ∃ n, net.nodes[p.1]? = some n ∧
      n.metadata = p.2.metadata ∧ ((∀ e ∈ net.drivers, e.driven ≠ p.1) →
        n.potential = .column p.2.potential ∧ n.isLocked = p.2.isLocked) :=
  ⟨exists_records h, fun _ hnet _ hp =>
    (describes_of_build (valid_of_ofJson h) hnet).configured hp⟩

/-- Two entries with different keys for one node: the first one, which locks the node, is lost. -/
theorem records_twofold :
    ofJson twofold = .ok twofoldModel ∧
    (∃ given, twofoldModel.Records (writtenEntries twofold) given) ∧
    ∀ net, twofoldModel.build = .ok net → ∀ p ∈ twofoldModel.configuration,
      ∃ n, net.nodes[p.1]? = some n ∧ n.metadata = p.2.metadata ∧
        ((∀ e ∈ net.drivers, e.driven ≠ p.1) →
          n.potential = .column p.2.potential ∧ n.isLocked = p.2.isLocked) :=
  ⟨ofJson_twofold, records_of_ofJson ofJson_twofold⟩

/-- Different keys may stand for one node: `0` and `0.0` do. Then there are fewer states than
entries, and a node that one of them locks is left unlocked although no element drives it. -/
theorem twofold_loses_entry :
    ofJson twofold = .ok twofoldModel ∧ ((writtenEntries twofold).map (·.1)).Nodup ∧
    List.Forall₂ Gives (writtenEntries twofold) twofoldGiven ∧
    (∀ p ∈ twofoldGiven, p.1 = 0) ∧ twofoldGiven.map (fun p => p.2.isLocked) = [true, false] ∧
    twofoldModel.configuration.length < (writtenEntries twofold).length ∧
    ∃ net n, twofoldModel.build = .ok net ∧ (∀ e ∈ net.drivers, e.driven ≠ 0) ∧
      net.nodes[0]? = some n ∧ n.isLocked = false := by
  have hbuilt : (twofoldModel.build.toOption.map fun net =>
      (net.nodes[0]?.map Node.isLocked, net.drivers.map Element.driven)) =
        some (some false, [1]) := by decide +kernel
  obtain ⟨net, hnet, hnode⟩ := Option.map_eq_some_iff.mp hbuilt
  obtain ⟨hlocked, hdrivers⟩ := Prod.mk.inj hnode
  obtain ⟨n, hn, hlocked⟩ := Option.map_eq_some_iff.mp hlocked
  refine ⟨ofJson_twofold, by decide +kernel, gives_twofold, by decide, rfl, by decide, net, n,
    except_toOption_eq_some.mp hnet, fun e he hdriven => ?_, hn, hlocked⟩
  have hmem : e.driven ∈ net.drivers.map Element.driven := List.mem_map_of_mem he
  rw [hdrivers, hdriven] at hmem
  simp at hmem

end Model

end FluxBalance
