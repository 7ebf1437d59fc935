import FluxBalance.Proofs.Model.Entries

/-!
# Written models are read as they were

A model is written member by member and read member by member, so it is enough that each decoder
inverts the way in which its values are written: keys are plain numbers and name each node once,
potentials and gains that are not empty are written as lists that are not empty, and what is left
out of a document has its default written out. The cross-checks hold again because they hold of
every `Valid` model. So the documents that valid models are written as are accepted, the models of
accepted documents are exactly the valid ones, and writing what was read does not change any more.

## Main definitions and results

* `draft`, `draftOf_toJson`: the draft that a model is written as is read back;
* `ofJson_toJson`: a `Valid` model is read back as it was.
-/

namespace FluxBalance

namespace Model

open Checked

variable {β : Type}

/-! ### Lists of numbers -/

/-- A list is read if its items are. -/
private theorem listAt_map {item : Decoder β} {write : β → Json} {ys : List β} (path : List String)
    (h : ∀ y ∈ ys, ∀ path, item path (write y) = accepted y) :
    listAt item path (.arr (ys.map write)) = accepted ys := by
  refine listAt_eq_accepted.mpr ⟨_, rfl, List.ext_getElem (by simp) fun i hi hi' => ?_⟩
  simp only [List.getElem_mapIdx, List.getElem_map]
  exact h _ (List.getElem_mem _) _

/-- A list that is written item by item is read back item by item. -/
private theorem nonemptyListAt_map {item : Decoder β} {write : β → Json} {ys : List β}
    (path : List String) (hne : ys ≠ []) (h : ∀ y ∈ ys, ∀ path, item path (write y) = accepted y) :
    nonemptyListAt item path (.arr (ys.map write)) = accepted ys :=
  nonemptyListAt_eq_accepted.mpr ⟨listAt_map path h, hne⟩

/-- An entry of a gain is not taken for one of the other sort. -/
private theorem gainEntryAt_toJson (g : GainEntry) (path : List String) :
    gainEntryAt path g.toJson = accepted g := by
  cases g with
  | number x => rfl
  | row xs =>
    have hrow : listAt numberAt (path ++ ["list[float]"]) (numbersJson xs) = accepted xs :=
      listAt_map _ fun _ _ _ => rfl
    simp only [gainEntryAt, GainEntry.toJson, hrow]
    rfl

/-! ### Parts of a model -/

/-- The state of a node is read back as it is written. -/
private theorem nodeAt_toJson {c : NodeConfiguration} (hne : c.potential ≠ [])
    (path : List String) : nodeAt path c.toJson = accepted c := by
  obtain ⟨potential, isLocked, metadata⟩ := c
  refine nodeAt_eq_accepted.mpr ⟨_, rfl, ?_, ?_, ?_, ?_⟩
  · exact required_eq_accepted.mpr
      ⟨numbersJson potential, by simp [Json.lookup?], nonemptyListAt_map _ hne fun _ _ _ => rfl⟩
  · exact optional_eq_accepted.mpr (.inr ⟨.bool isLocked, by simp [Json.lookup?], rfl⟩)
  · refine optional_eq_accepted.mpr (.inr ⟨_, by simp [Json.lookup?]; rfl, ?_⟩)
    cases metadata <;> rfl
  · exact noOthers_eq_accepted.mpr (by simp)

private theorem elementAt_toJson {e : ElementDescription} (hne : e.gain ≠ []) (path : List String) :
    elementAt path e.toJson = accepted e := by
  refine elementAt_eq_accepted.mpr ⟨_, rfl, ?_, ?_, ?_, ?_, ?_⟩
  · exact required_eq_accepted.mpr ⟨.str e.elementType, by simp [Json.lookup?], rfl⟩
  · exact required_eq_accepted.mpr ⟨.int e.input, by simp [Json.lookup?], rfl⟩
  · exact required_eq_accepted.mpr ⟨.int e.output, by simp [Json.lookup?], rfl⟩
  · exact required_eq_accepted.mpr ⟨.arr (e.gain.map GainEntry.toJson), by simp [Json.lookup?],
      nonemptyListAt_map _ hne fun g _ => gainEntryAt_toJson g⟩
  · exact noOthers_eq_accepted.mpr (by simp)

/-- Nodes that are written under their positions are read at these positions. -/
private theorem configurationAt_toJson {cs : List (Nat × NodeConfiguration)}
    (hnodup : (cs.map (·.1)).Nodup) (hne : ∀ p ∈ cs, p.2.potential ≠ []) :
    configurationAt ["configuration"] (.obj (cs.map fun (i, c) => (toString i, c.toJson)))
      = accepted (cs.map fun (i, c) => ((i : Int), c)) := by
  refine configurationAt_eq_accepted.mpr ⟨_, ?_, mergeEntries_eq_self ?_⟩
  · rw [List.forall₂_map_left_iff, List.forall₂_map_right_iff, List.forall₂_same]
    exact fun p hp => ⟨NodeKey.read?_toString p.1, nodeAt_toJson (hne p hp) _⟩
  · have hkeys : ((cs.map (·.1)).map Int.ofNat).Nodup :=
      hnodup.map_on fun _ _ _ _ => Int.ofNat.inj
    rw [List.map_map] at hkeys ⊢
    exact hkeys

/-! ### The whole model -/

/-- The draft that a model is written as. -/
def draft (m : Model) : Draft :=
  ⟨m.modelType, m.nodes, m.configuration.map fun (i, c) => ((i : Int), c), m.elements⟩

/-- The `draft` of a `Valid` model is read back as it is written. -/
private theorem draftOf_toJson {m : Model} (h : m.Valid) : draftOf m.toJson = accepted m.draft := by
  refine draftOf_eq_accepted.mpr ⟨_, rfl, ?_, ?_, ?_, ?_, ?_⟩
  · exact required_eq_accepted.mpr ⟨.str m.modelType, by simp [Json.lookup?],
      modelTypeAt_eq_accepted.mpr ⟨rfl, h.modelType⟩⟩
  · exact required_eq_accepted.mpr ⟨.int m.nodes, by simp [Json.lookup?],
      naturalAt_eq_accepted.mpr rfl⟩
  · exact optional_eq_accepted.mpr (.inr ⟨_, by simp [Json.lookup?],
      configurationAt_toJson h.nodup h.potential_ne_nil⟩)
  · exact optional_eq_accepted.mpr (.inr ⟨.arr (m.elements.map ElementDescription.toJson),
      by simp [Json.lookup?], listAt_map _ fun e he => elementAt_toJson (h.gain_ne_nil e he)⟩)
  · exact noOthers_eq_accepted.mpr (by simp)

/-- The parts that a model is written as fit together, and make up that model. -/
private theorem check_draft {m : Model} (h : m.Valid) : m.draft.check = accepted m := by
  refine check_eq_accepted.mpr ⟨?_, ?_, ?_⟩
  · simp only [draft, List.forall_mem_map]
    intro p hp
    have := h.lt_nodes p hp
    omega
  · simp only [draft, List.forall_mem_map]
    intro p hp q hq
    rw [h.length_potential p hp, h.length_potential q hq]
  · have hpositions : m.configuration.map (fun p => ((p.1 : Int).toNat, p.2)) = m.configuration :=
      List.map_id'' (fun _ => rfl) _
    simp only [draft, List.map_map, Function.comp_def, hpositions]

/-- A `Valid` model is read back from the document that it is written as. -/
theorem ofJson_toJson {m : Model} (h : m.Valid) : ofJson m.toJson = .ok m :=
  ofJson_eq_ok.mpr ⟨m.draft, draftOf_toJson h, check_draft h⟩

/-- The `Valid` models are exactly those that documents describe. -/
theorem valid_iff {m : Model} : m.Valid ↔ ∃ j, ofJson j = .ok m :=
  ⟨fun h => ⟨m.toJson, ofJson_toJson h⟩, fun ⟨_, h⟩ => valid_of_ofJson h⟩

/-- What is read from an accepted document and written again is accepted again, and is the same
model; written once more, it is the same document. -/
theorem ofJson_toJson_of_ofJson {j : Json} {m : Model} (h : ofJson j = .ok m) :
    ∃ m', ofJson m.toJson = .ok m' ∧ m' = m ∧ m'.toJson = m.toJson :=
  ⟨m, ofJson_toJson (valid_of_ofJson h), rfl, rfl⟩

/-- A document that is not written as its model would be: it names one node twice and leaves out
locks and metadata. -/
theorem ofJson_toJson_twofold :
    ofJson twofold = .ok twofoldModel ∧ ∃ m', ofJson twofoldModel.toJson = .ok m' ∧
      m' = twofoldModel ∧ m'.toJson = twofoldModel.toJson :=
  ⟨ofJson_twofold, ofJson_toJson_of_ofJson ofJson_twofold⟩

end Model

end FluxBalance
