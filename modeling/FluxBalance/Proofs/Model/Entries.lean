import FluxBalance.Proofs.Computation
import FluxBalance.Proofs.Model.Reading
import Mathlib.Data.List.Induction
import Mathlib.Data.List.Perm.Subperm

/-!
# Configured nodes

The keys of a configuration are texts that stand for nodes, and different texts may stand for the
same one. The states that the entries of a document give are merged, so that each node has one, the
last one that is given for it. This module says what is left of the entries, that none is lost if no
node is named twice, and which models come out of accepted documents.

## Main definitions and results

* `writtenEntries`, `Gives`: the entries of a document, and what each of them gives;
* `Valid`, `valid_of_ofJson`: what holds of the models of accepted documents;
* `twofold`, `twofoldModel`: a document that states a node twice, and its model.
-/

namespace FluxBalance

/-! ### Keys that are written plainly -/

namespace NodeKey

/-- The digits of a positive number do not begin with a zero. -/
private theorem head?_toDigits_ne_zero : ∀ {n : Nat}, 0 < n → (Nat.toDigits 10 n).head? ≠ some '0'
  | n, hn => by
    rw [Nat.toDigits_eq_if (by decide)]
    split
    · simp [Nat.digitChar_eq_zero]
      omega
    · rw [List.head?_append_of_ne_nil _ Nat.toDigits_ne_nil]
      exact head?_toDigits_ne_zero (by omega)

/-- The digits of a number are read as that number. -/
private theorem natural?_toDigits (n : Nat) : natural? (Nat.toDigits 10 n) = some n := by
  have hdigits : ∀ c ∈ Nat.toDigits 10 n, c.isDigit = true :=
    fun c hc => Nat.isDigit_of_mem_toDigits (by decide) (Nat.le_refl _) hc
  have hzero : ¬((Nat.toDigits 10 n).head? = some '0' ∧ 1 < (Nat.toDigits 10 n).length) := by
    rcases Nat.eq_zero_or_pos n with rfl | hn
    · simp
    · simp [head?_toDigits_ne_zero hn]
  have hvalue : (Nat.toDigits 10 n).foldl (fun n c => 10 * n + (c.toNat - 48)) 0 = n :=
    Nat.ofDigitChars_ten_toDigits
  unfold natural?
  rw [if_neg, hvalue]
  simp only [List.isEmpty_iff, Nat.toDigits_ne_nil, Bool.not_eq_true', List.all_eq_false, hzero,
    false_or, or_false, not_exists, not_and, Bool.not_eq_true]
  simpa using hdigits

/-- A number that is written plainly is read as that number. -/
theorem read?_toString (n : Nat) : read? (toString n) = some (n : Int) := by
  have hplain : plain? (toString n).toList = some (n : Int) := by
    rw [Nat.toString_eq_ofList_toDigits, String.toList_ofList]
    unfold plain?
    split
    · rename_i ds hds
      have hminus : '-' ∈ Nat.toDigits 10 n := by simp [hds]
      exact absurd (Nat.isDigit_of_mem_toDigits (by decide) (Nat.le_refl _) hminus) (by decide)
    · rw [natural?_toDigits]
      rfl
  rw [read?, hplain, Option.some_or]

end NodeKey

namespace Model

open Checked

/-! ### Merging entries -/

section

variable {β : Type}

/-- The entry is the last one for its node. -/
def IsLast (e : Int × β) (es : List (Int × β)) : Prop :=
  ∃ before after, es = before ++ e :: after ∧ e.1 ∉ after.map (·.1)

/-- The last entry for a node is the entry at the end, or it is the last one before that and the
entry at the end is for another node. -/
private theorem isLast_append_singleton {e e' : Int × β} {es : List (Int × β)} :
    IsLast e (es ++ [e']) ↔ e = e' ∨ IsLast e es ∧ e.1 ≠ e'.1 := by
  constructor
  · rintro ⟨before, after, hes, hafter⟩
    rcases List.eq_nil_or_concat after with rfl | ⟨init, last, rfl⟩
    · left
      simpa using (List.append_inj' hes rfl).2.symm
    · right
      rw [List.concat_eq_append, ← List.cons_append, ← List.append_assoc] at hes
      obtain ⟨rfl, hlast⟩ := List.append_inj' hes rfl
      obtain rfl : e' = last := by simpa using hlast
      simp only [List.concat_eq_append, List.map_append, List.mem_append, not_or] at hafter
      exact ⟨⟨before, init, rfl, hafter.1⟩, by simpa using hafter.2⟩
  · rintro (rfl | ⟨⟨before, after, rfl, hafter⟩, hne⟩)
    · exact ⟨es, [], rfl, by simp⟩
    · exact ⟨before, after ++ [e'], by simp, by simpa [hne] using hafter⟩

/-- One more entry replaces that of its node, or comes last. -/
private theorem mergeEntries_append_singleton (es : List (Int × β)) (e : Int × β) :
    mergeEntries (es ++ [e]) =
      if e.1 ∈ (mergeEntries es).map (·.1) then
        (mergeEntries es).map fun s => if s.1 = e.1 then e else s
      else mergeEntries es ++ [e] := by
  simp only [mergeEntries, List.foldl_append, List.foldl_cons, List.foldl_nil, beq_iff_eq,
    List.any_eq_true, List.mem_map]

/-- One more entry adds its key unless it is there already. -/
private theorem keys_mergeEntries_append_singleton (es : List (Int × β)) (e : Int × β) :
    (mergeEntries (es ++ [e])).map (·.1) =
      if e.1 ∈ (mergeEntries es).map (·.1) then (mergeEntries es).map (·.1)
      else (mergeEntries es).map (·.1) ++ [e.1] := by
  rw [mergeEntries_append_singleton]
  split
  · rw [List.map_map]
    refine List.map_congr_left fun s _ => ?_
    simp only [Function.comp_apply]
    split <;> simp [*]
  · simp

/-- Merging keeps the nodes that are named. -/
theorem mem_keys_mergeEntries {i : Int} {es : List (Int × β)} :
    i ∈ (mergeEntries es).map (·.1) ↔ i ∈ es.map (·.1) := by
  induction es using List.reverseRecOn with
  | nil => simp [mergeEntries]
  | append_singleton es e ih =>
    rw [keys_mergeEntries_append_singleton, List.map_append, List.mem_append, ← ih]
    split
    · simp only [List.map_cons, List.map_nil, List.mem_singleton]
      constructor
      · exact .inl
      · rintro (h | rfl) <;> assumption
    · simp

/-- Merged entries name each node once. -/
private theorem nodup_keys_mergeEntries (es : List (Int × β)) :
    ((mergeEntries es).map (·.1)).Nodup := by
  induction es using List.reverseRecOn with
  | nil => simp [mergeEntries]
  | append_singleton es e ih =>
    rw [keys_mergeEntries_append_singleton]
    split
    · exact ih
    · rename_i hnew
      exact ih.append (List.nodup_singleton _) (by simpa using hnew)

/-- Entries that name different nodes stay as they are. -/
theorem mergeEntries_eq_self {es : List (Int × β)} (h : (es.map (·.1)).Nodup) :
    mergeEntries es = es := by
  induction es using List.reverseRecOn with
  | nil => rfl
  | append_singleton es e ih =>
    rw [List.map_append, List.nodup_append] at h
    rw [mergeEntries_append_singleton, ih h.1, if_neg]
    intro hmem
    exact h.2.2 e.1 hmem e.1 (by simp) rfl

/-- Merging leaves out an entry exactly if two entries name the same node. -/
theorem length_mergeEntries_eq_iff {es : List (Int × β)} :
    (mergeEntries es).length = es.length ↔ (es.map (·.1)).Nodup := by
  refine ⟨fun h => ?_, fun h => by rw [mergeEntries_eq_self h]⟩
  have hsub : (mergeEntries es).map (·.1) ⊆ es.map (·.1) := fun _ => mem_keys_mergeEntries.mp
  have hsubperm := List.subperm_of_subset (nodup_keys_mergeEntries es) hsub
  have hperm := hsubperm.perm_of_length_le (by simp [h])
  exact hperm.nodup_iff.mp (nodup_keys_mergeEntries es)

/-- What is left are the last entries of the nodes. -/
theorem mem_mergeEntries {e : Int × β} {es : List (Int × β)} :
    e ∈ mergeEntries es ↔ IsLast e es := by
  induction es using List.reverseRecOn with
  | nil => simp [mergeEntries, IsLast]
  | append_singleton es e' ih =>
    rw [mergeEntries_append_singleton, isLast_append_singleton, ← ih]
    have hkey : e ∈ mergeEntries es → e.1 ∈ (mergeEntries es).map (·.1) :=
      fun h => List.mem_map_of_mem h
    split
    · rename_i hmem
      simp only [List.mem_map]
      constructor
      · rintro ⟨s, hs, rfl⟩
        split
        · exact .inl rfl
        · exact .inr ⟨hs, ‹_›⟩
      · rintro (rfl | ⟨h, hne⟩)
        · obtain ⟨s, hs, hkeys⟩ := List.mem_map.mp hmem
          exact ⟨s, hs, if_pos hkeys⟩
        · exact ⟨e, h, if_neg hne⟩
    · rename_i hnew
      simp only [List.mem_append, List.mem_singleton]
      constructor
      · rintro (h | rfl)
        · exact .inr ⟨h, fun heq => hnew (heq ▸ hkey h)⟩
        · exact .inl rfl
      · rintro (rfl | ⟨h, -⟩)
        · exact .inr rfl
        · exact .inl h

end

/-! ### What a document gives for nodes -/

/-- The entries of the configuration of a document, as they are written. -/
def writtenEntries : Json → List (String × Json)
  | .obj ms =>
    match Json.lookup? ms "configuration" with
    | some (.obj entries) => entries
    | _ => []
  | _ => []

/-- What an entry gives: its key stands for a node, and its value is read as the state of one. -/
def Gives (entry : String × Json) (given : Int × NodeConfiguration) : Prop :=
  NodeKey.read? entry.1 = some given.1 ∧
    nodeAt ["configuration", entry.1] entry.2 = accepted given.2

/-- A key is accepted exactly if `NodeKey.read?` reads it. -/
private theorem keyAt_eq_accepted {path : List String} {key : String} {i : Int} :
    keyAt path key = accepted i ↔ NodeKey.read? key = some i := by
  unfold keyAt
  split <;> simp [*]

/-- A configuration is accepted if all of its entries give a state, and these are merged. -/
theorem configurationAt_eq_accepted {entries : List (String × Json)}
    {cs : List (Int × NodeConfiguration)} :
    configurationAt ["configuration"] (.obj entries) = accepted cs ↔
      ∃ given, List.Forall₂ Gives entries given ∧ mergeEntries given = cs := by
  have hone (entry : String × Json) (given : Int × NodeConfiguration) :
      ((fun i c => (i, c)) <$> keyAt (["configuration"] ++ [entry.1]) entry.1
        <*> nodeAt (["configuration"] ++ [entry.1]) entry.2 : Checked _) = accepted given ↔
      Gives entry given := by
    simp only [seq_eq_accepted, map_eq_accepted, keyAt_eq_accepted, Gives]
    constructor
    · rintro ⟨_, c, ⟨i, hi, rfl⟩, hc, rfl⟩
      exact ⟨hi, hc⟩
    · rintro ⟨hi, hc⟩
      exact ⟨_, given.2, ⟨given.1, hi, rfl⟩, hc, rfl⟩
  simp only [configurationAt, map_eq_accepted', all_eq_accepted]
  refine exists_congr fun given => and_congr_left fun _ => ?_
  rw [← List.forall₂_eq_eq_eq, List.forall₂_map_left_iff, List.forall₂_map_right_iff]
  exact ⟨fun h => h.imp fun _ _ => (hone _ _).mp, fun h => h.imp fun _ _ => (hone _ _).mpr⟩

/-- Accepted parts have the states of nodes that the entries of the document give. -/
private theorem exists_gives_of_draftOf {j : Json} {d : Draft} (h : draftOf j = accepted d) :
    ∃ given, List.Forall₂ Gives (writtenEntries j) given ∧
      d.configuration = mergeEntries given := by
  obtain ⟨ms, rfl, -, -, hc, -, -⟩ := draftOf_eq_accepted.mp h
  rcases optional_eq_accepted.mp hc with ⟨hnone, hempty⟩ | ⟨v, hv, hread⟩
  · exact ⟨[], by simp [writtenEntries, hnone], hempty.symm⟩
  · cases v with
    | null =>
      have hempty : [] = d.configuration := by simpa [configurationAt] using hread
      exact ⟨[], by simp [writtenEntries, hv], hempty.symm⟩
    | obj entries =>
      obtain ⟨given, hgiven, hmerged⟩ := configurationAt_eq_accepted.mp hread
      exact ⟨given, by simpa [writtenEntries, hv] using hgiven, hmerged.symm⟩
    | _ => cases hread

/-! ### Valid models -/

/-- What holds of the models of accepted documents. -/
structure Valid (m : Model) : Prop where
  modelType : m.modelType ∈ modelTypes
  lt_nodes : ∀ p ∈ m.configuration, p.1 < m.nodes
  nodup : (m.configuration.map (·.1)).Nodup
  length_potential : ∀ p ∈ m.configuration, p.2.potential.length = m.components
  potential_ne_nil : ∀ p ∈ m.configuration, p.2.potential ≠ []
  gain_ne_nil : ∀ e ∈ m.elements, e.gain ≠ []

/-- Configured nodes have at most one number of components exactly if all have the same. -/
private theorem length_widths_le_one_iff {d : Draft} : d.widths.length ≤ 1 ↔
    ∀ p ∈ d.configuration, ∀ q ∈ d.configuration, p.2.potential.length = q.2.potential.length := by
  simp only [Draft.widths, List.length_mergeSort]
  generalize d.configuration = cs
  cases cs with
  | nil => simp
  | cons p cs =>
    have hone : ∀ ns : List Nat, 1 + ns.eraseDups.length ≤ 1 ↔ ns = [] := by
      intro ns
      cases ns <;> simp [List.eraseDups_cons]
    rw [List.map_cons, List.eraseDups_cons, List.length_cons, Nat.add_comm, hone,
      List.filter_eq_nil_iff, List.forall_mem_map]
    constructor
    · intro h
      have hfirst : ∀ q ∈ p :: cs, q.2.potential.length = p.2.potential.length := by
        simpa using h
      exact fun q hq r hr => (hfirst q hq).trans (hfirst r hr).symm
    · intro h q hq
      simpa using h q (.tail _ hq) p (.head _)

/-- A draft whose configuration fits is a model, and only its nodes are written anew. -/
theorem check_eq_accepted {d : Draft} {m : Model} : d.check = accepted m ↔
    (∀ p ∈ d.configuration, 0 ≤ p.1 ∧ p.1 < d.nodes) ∧
      (∀ p ∈ d.configuration, ∀ q ∈ d.configuration,
        p.2.potential.length = q.2.potential.length) ∧
      ⟨d.modelType, d.nodes, d.configuration.map fun (i, c) => (i.toNat, c), d.elements⟩ = m := by
  have hexist : d.configuration.find? (fun (i, _) => i < 0 || d.nodes ≤ i) = none ↔
      ∀ p ∈ d.configuration, 0 ≤ p.1 ∧ p.1 < d.nodes := by
    simp only [List.find?_eq_none, Bool.or_eq_true, decide_eq_true_eq, not_or, Int.not_lt,
      Int.not_le]
  rw [← length_widths_le_one_iff, ← hexist]
  unfold Draft.check
  split
  · simp [*]
  · rename_i hnone
    split
    · rename_i hwidths
      simp only [refuse_ne_accepted, false_iff]
      omega
    · rename_i hwidths
      simp [hnone, Nat.not_lt.mp hwidths]

/-- A model is read by drafting it and checking the draft. -/
theorem ofJson_eq_ok {j : Json} {m : Model} :
    ofJson j = .ok m ↔ ∃ d, draftOf j = accepted d ∧ d.check = accepted m := by
  unfold ofJson
  rw [← andThen_eq_accepted]
  cases (draftOf j).andThen Draft.check <;> simp [finish]

/-- What the entries of an accepted document give: states of nodes of the model, and its
configuration is what is left of them when they are merged. -/
theorem exists_gives_of_ofJson {j : Json} {m : Model} (h : ofJson j = .ok m) :
    ∃ given, List.Forall₂ Gives (writtenEntries j) given ∧
      (∀ p ∈ mergeEntries given, 0 ≤ p.1 ∧ p.1 < m.nodes) ∧
      (∀ p ∈ mergeEntries given, ∀ q ∈ mergeEntries given,
        p.2.potential.length = q.2.potential.length) ∧
      m.configuration = (mergeEntries given).map fun (i, c) => (i.toNat, c) := by
  obtain ⟨d, hd, hm⟩ := ofJson_eq_ok.mp h
  obtain ⟨given, hgiven, hmerged⟩ := exists_gives_of_draftOf hd
  obtain ⟨hexist, hwidths, rfl⟩ := check_eq_accepted.mp hm
  rw [hmerged] at hexist hwidths
  exact ⟨given, hgiven, hexist, hwidths, by simp only [hmerged]⟩

/-- The model of an accepted document is `Valid`. -/
theorem valid_of_ofJson {j : Json} {m : Model} (h : ofJson j = .ok m) : m.Valid := by
  obtain ⟨given, hgiven, hexist, hwidths, hconfiguration⟩ := exists_gives_of_ofJson h
  have hmem {p : Nat × NodeConfiguration} (hp : p ∈ m.configuration) :
      ∃ q ∈ mergeEntries given, (q.1.toNat, q.2) = p := by
    rw [hconfiguration, List.mem_map] at hp
    exact hp
  obtain ⟨d, hd, hm⟩ := ofJson_eq_ok.mp h
  obtain ⟨ms, -, htype, -, -, helements, -⟩ := draftOf_eq_accepted.mp hd
  obtain ⟨-, -, rfl⟩ := check_eq_accepted.mp hm
  constructor
  case modelType =>
    obtain ⟨_, -, hread⟩ := required_eq_accepted.mp htype
    exact (modelTypeAt_eq_accepted.mp hread).2
  case lt_nodes =>
    intro p hp
    obtain ⟨q, hq, rfl⟩ := hmem hp
    have := hexist q hq
    simp only at this ⊢
    omega
  case nodup =>
    -- Keys that are not negative stay different as positions.
    have hkeys : (((mergeEntries given).map (·.1)).map Int.toNat).Nodup := by
      refine (nodup_keys_mergeEntries given).map_on ?_
      simp only [List.forall_mem_map]
      intro p hp q hq heq
      have := hexist p hp
      have := hexist q hq
      omega
    rw [List.map_map] at hkeys
    rw [hconfiguration, List.map_map]
    exact hkeys
  case length_potential =>
    intro p hp
    obtain ⟨q, hq, rfl⟩ := hmem hp
    -- The width of a model is that of the first of its entries.
    unfold components
    split
    · rename_i i c rest hfirst
      obtain ⟨r, hr, heq⟩ := hmem (p := (i, c)) (by rw [hfirst]; exact .head _)
      have hc : r.2 = c := congrArg Prod.snd heq
      rw [← hc]
      exact hwidths q hq r hr
    · rename_i hnil
      rw [hnil] at hp
      cases hp
  case potential_ne_nil =>
    intro p hp
    obtain ⟨q, hq, rfl⟩ := hmem hp
    obtain ⟨before, after, rfl, -⟩ := mem_mergeEntries.mp hq
    obtain ⟨entry, -, -, hread⟩ := exists_of_mem_of_forall₂ hgiven q (by simp)
    exact potential_ne_nil_of_nodeAt hread
  case gain_ne_nil =>
    rcases optional_eq_accepted.mp helements with ⟨-, hempty⟩ | ⟨_, -, hread⟩
    · simp [← hempty]
    · exact gain_ne_nil_of_elementsAt hread

/-! ### A node with two entries -/

private theorem mem_modelTypes {t : String} :
    t ∈ modelTypes ↔ t = "dc_circuit" ∨ t = "heat_transfer" ∨ t = "hydraulic" := by
  simp [modelTypes, Catalogue.modelTypes, Catalogue.standard]

/-- A document with two states for node 0, whose keys are spelled differently. -/
def twofold : Json :=
  .obj [("model_type", .str "dc_circuit"), ("nodes", .int 2),
    ("configuration", .obj
      [("0", .obj [("potential", .arr [.float 5]), ("is_locked", .bool true)]),
        ("0.0", .obj [("potential", .arr [.float 7])])]),
    ("elements", .arr [.obj [("element_type", .str "voltage_source"), ("input", .int 0),
      ("output", .int 1), ("gain", .arr [.float 1])]])]

/-- The model that is read from it: the second state has replaced the first one. -/
def twofoldModel : Model where
  modelType := "dc_circuit"
  nodes := 2
  configuration := [(0, ⟨[7], false, none⟩)]
  elements := [⟨"voltage_source", 0, 1, [.number 1]⟩]

/-- What its two entries give. -/
def twofoldGiven : List (Int × NodeConfiguration) :=
  [(0, ⟨[5], true, none⟩), (0, ⟨[7], false, none⟩)]

theorem gives_twofold : List.Forall₂ Gives (writtenEntries twofold) twofoldGiven := by
  refine .cons ⟨?_, rfl⟩ (.cons ⟨?_, rfl⟩ .nil) <;> decide +kernel

theorem ofJson_twofold : ofJson twofold = .ok twofoldModel := by
  refine ofJson_eq_ok.mpr ⟨⟨"dc_circuit", 2, [(0, ⟨[7], false, none⟩)], twofoldModel.elements⟩,
    draftOf_eq_accepted.mpr ⟨_, rfl, ?_, rfl, ?_, rfl, rfl⟩,
    check_eq_accepted.mpr ⟨by simp, by simp, rfl⟩⟩
  · exact required_eq_accepted.mpr ⟨.str "dc_circuit", rfl,
      modelTypeAt_eq_accepted.mpr ⟨rfl, mem_modelTypes.mpr (.inl rfl)⟩⟩
  · exact optional_eq_accepted.mpr (.inr ⟨_, rfl,
      configurationAt_eq_accepted.mpr ⟨twofoldGiven, gives_twofold, rfl⟩⟩)

end Model

end FluxBalance
