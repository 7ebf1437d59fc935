import FluxBalance.Model.Reading
import Mathlib.Data.List.Forall2
import Mathlib.Data.List.Nodup

/-!
# What accepted documents describe

A document is accepted if all of its parts are. So acceptance of a combined value opens into
acceptance of its parts, step by step along the decoders, and what an accepted document says about
its model can be collected from them: the model type is one of the known ones, the configured nodes
exist, are named once each and have the same number of components, at least one, and no gain is
empty. These models are called valid.

## Main definitions and results

* `required_eq_accepted`, `optional_eq_accepted`, `noOthers_eq_accepted`: when the members of an
  object are accepted;
* `gain_ne_nil_of_elementAt`: no accepted gain is empty.
-/

namespace FluxBalance

namespace Checked

variable {β γ : Type}

/-! ### Acceptance of combined values -/

@[simp]
theorem refuse_ne_accepted (path : List String) (kind : ComplaintKind) (x : β) :
    refuse path kind ≠ accepted x := nofun

@[simp]
theorem map_eq_accepted {f : β → γ} {x : Checked β} {c : γ} :
    f <$> x = accepted c ↔ ∃ b, x = accepted b ∧ f b = c := by
  cases x <;> simp [Functor.map, map]

@[simp]
theorem map_eq_accepted' {f : β → γ} {x : Checked β} {c : γ} :
    x.map f = accepted c ↔ ∃ b, x = accepted b ∧ f b = c :=
  map_eq_accepted

@[simp]
theorem seq_eq_accepted {f : Checked (β → γ)} {x : Checked β} {c : γ} :
    f <*> x = accepted c ↔ ∃ g b, f = accepted g ∧ x = accepted b ∧ g b = c := by
  cases f <;> cases x <;> simp [Seq.seq, apply]

@[simp]
theorem andThen_eq_accepted {x : Checked β} {f : β → Checked γ} {c : γ} :
    x.andThen f = accepted c ↔ ∃ b, x = accepted b ∧ f b = accepted c := by
  cases x <;> simp [andThen]

@[simp]
theorem all_eq_accepted {xs : List (Checked β)} {ys : List β} :
    all xs = accepted ys ↔ xs = ys.map accepted := by
  induction xs generalizing ys with
  | nil => cases ys <;> simp [all]
  | cons x xs ih => cases ys <;> simp [all, ih]

end Checked

namespace Model

open Checked

variable {β : Type} {path : List String} {j : Json}

/-! ### Acceptance of values -/

private theorem textAt_eq_accepted {s : String} : textAt path j = accepted s ↔ j = .str s := by
  cases j <;> simp [textAt]

private theorem integerAt_eq_accepted {n : Int} : integerAt path j = accepted n ↔ j = .int n := by
  cases j <;> simp [integerAt]

theorem naturalAt_eq_accepted {n : Nat} : naturalAt path j = accepted n ↔ j = .int n := by
  simp only [naturalAt, andThen_eq_accepted, integerAt_eq_accepted]
  constructor
  · rintro ⟨i, rfl, h⟩
    split at h
    · cases h
    · obtain rfl : i.toNat = n := by simpa using h
      rw [Int.toNat_of_nonneg (by omega)]
  · rintro rfl
    exact ⟨n, rfl, by simp⟩

private theorem membersAt_eq_accepted {ms : List (String × Json)} :
    membersAt path j = accepted ms ↔ j = .obj ms := by
  cases j <;> simp [membersAt]

theorem listAt_eq_accepted {item : Decoder β} {ys : List β} :
    listAt item path j = accepted ys ↔ ∃ xs, j = .arr xs ∧
      (xs.mapIdx fun i x => item (path ++ [toString i]) x) = ys.map accepted := by
  cases j <;> simp [listAt]

/-- A list that may not be empty is read like any other, and is not empty. -/
theorem nonemptyListAt_eq_accepted {item : Decoder β} {ys : List β} :
    nonemptyListAt item path j = accepted ys ↔ listAt item path j = accepted ys ∧ ys ≠ [] := by
  cases j with
  | arr xs => cases xs <;> cases ys <;> simp [nonemptyListAt, listAt]
  | _ => simp [nonemptyListAt, listAt]

/-- A `required` member is accepted in an object that has it with an accepted value. -/
theorem required_eq_accepted {ms : List (String × Json)} {name : String} {value : Decoder β}
    {x : β} : required ms path name value = accepted x ↔
      ∃ j, Json.lookup? ms name = some j ∧ value (path ++ [name]) j = accepted x := by
  unfold required
  split <;> simp [*]

/-- An `optional` member may be absent, too, and the default stands in its place. -/
theorem optional_eq_accepted {ms : List (String × Json)} {name : String} {default : β}
    {value : Decoder β} {x : β} : optional ms path name default value = accepted x ↔
      (Json.lookup? ms name = none ∧ default = x) ∨
        ∃ j, Json.lookup? ms name = some j ∧ value (path ++ [name]) j = accepted x := by
  unfold optional
  split <;> simp [*]

/-- The check `noOthers` accepts objects with members of these names only. -/
theorem noOthers_eq_accepted {ms : List (String × Json)} {names : List String} :
    noOthers ms path names = accepted () ↔ ∀ m ∈ ms, m.1 ∈ names := by
  unfold noOthers
  split
  · rename_i h
    simpa using h
  · rename_i others hne
    simpa [List.filter_eq_nil_iff] using hne

/-! ### Acceptance of the parts of a model -/

/-- The state of a node is read member by member. -/
theorem nodeAt_eq_accepted {c : NodeConfiguration} : nodeAt path j = accepted c ↔
    ∃ ms, j = .obj ms ∧
      required ms path "potential" (nonemptyListAt numberAt) = accepted c.potential ∧
      optional ms path "is_locked" false truthAt = accepted c.isLocked ∧
      optional ms path "metadata" none metadataAt = accepted c.metadata ∧
      noOthers ms path ["potential", "is_locked", "metadata"] = accepted () := by
  simp only [nodeAt, andThen_eq_accepted, membersAt_eq_accepted, seq_eq_accepted,
    map_eq_accepted]
  constructor
  · rintro ⟨ms, rfl, _, _, ⟨_, _, ⟨_, _, ⟨_, hp, rfl⟩, hl, rfl⟩, hm, rfl⟩, ho, rfl⟩
    exact ⟨ms, rfl, hp, hl, hm, ho⟩
  · rintro ⟨ms, rfl, hp, hl, hm, ho⟩
    exact ⟨ms, rfl, _, _, ⟨_, _, ⟨_, _, ⟨_, hp, rfl⟩, hl, rfl⟩, hm, rfl⟩, ho, rfl⟩

/-- An element is read member by member. -/
theorem elementAt_eq_accepted {e : ElementDescription} : elementAt path j = accepted e ↔
    ∃ ms, j = .obj ms ∧
      required ms path "element_type" textAt = accepted e.elementType ∧
      required ms path "input" integerAt = accepted e.input ∧
      required ms path "output" integerAt = accepted e.output ∧
      required ms path "gain" (nonemptyListAt gainEntryAt) = accepted e.gain ∧
      noOthers ms path ["element_type", "input", "output", "gain"] = accepted () := by
  simp only [elementAt, andThen_eq_accepted, membersAt_eq_accepted, seq_eq_accepted,
    map_eq_accepted]
  constructor
  · rintro ⟨ms, rfl, _, _, ⟨_, _, ⟨_, _, ⟨_, _, ⟨_, ht, rfl⟩, hi, rfl⟩, ho, rfl⟩, hg, rfl⟩, hn, rfl⟩
    exact ⟨ms, rfl, ht, hi, ho, hg, hn⟩
  · rintro ⟨ms, rfl, ht, hi, ho, hg, hn⟩
    exact ⟨ms, rfl, _, _, ⟨_, _, ⟨_, _, ⟨_, _, ⟨_, ht, rfl⟩, hi, rfl⟩, ho, rfl⟩, hg, rfl⟩, hn, rfl⟩

/-- The parts of a model are read member by member. -/
theorem draftOf_eq_accepted {d : Draft} : draftOf j = accepted d ↔
    ∃ ms, j = .obj ms ∧
      required ms [] "model_type" modelTypeAt = accepted d.modelType ∧
      required ms [] "nodes" naturalAt = accepted d.nodes ∧
      optional ms [] "configuration" [] configurationAt = accepted d.configuration ∧
      optional ms [] "elements" [] elementsAt = accepted d.elements ∧
      noOthers ms [] ["model_type", "nodes", "configuration", "elements"] = accepted () := by
  simp only [draftOf, andThen_eq_accepted, membersAt_eq_accepted, seq_eq_accepted,
    map_eq_accepted]
  constructor
  · rintro ⟨ms, rfl, _, _, ⟨_, _, ⟨_, _, ⟨_, _, ⟨_, ht, rfl⟩, hn, rfl⟩, hc, rfl⟩, he, rfl⟩, ho, rfl⟩
    exact ⟨ms, rfl, ht, hn, hc, he, ho⟩
  · rintro ⟨ms, rfl, ht, hn, hc, he, ho⟩
    exact ⟨ms, rfl, _, _, ⟨_, _, ⟨_, _, ⟨_, _, ⟨_, ht, rfl⟩, hn, rfl⟩, hc, rfl⟩, he, rfl⟩, ho, rfl⟩

/-- A configured potential has at least one component. -/
theorem potential_ne_nil_of_nodeAt {c : NodeConfiguration} (h : nodeAt path j = accepted c) :
    c.potential ≠ [] := by
  obtain ⟨ms, -, hpotential, -⟩ := nodeAt_eq_accepted.mp h
  obtain ⟨_, -, hlist⟩ := required_eq_accepted.mp hpotential
  exact (nonemptyListAt_eq_accepted.mp hlist).2

/-- A gain has at least one entry. -/
private theorem gain_ne_nil_of_elementAt {e : ElementDescription}
    (h : elementAt path j = accepted e) : e.gain ≠ [] := by
  obtain ⟨ms, -, -, -, -, hgain, -⟩ := elementAt_eq_accepted.mp h
  obtain ⟨_, -, hlist⟩ := required_eq_accepted.mp hgain
  exact (nonemptyListAt_eq_accepted.mp hlist).2

theorem modelTypeAt_eq_accepted {t : String} :
    modelTypeAt path j = accepted t ↔ j = .str t ∧ t ∈ modelTypes := by
  simp only [modelTypeAt, andThen_eq_accepted, textAt_eq_accepted]
  constructor
  · rintro ⟨s, rfl, h⟩
    split at h
    · rename_i hs
      cases h
      exact ⟨rfl, by simpa using hs⟩
    · cases h
  · rintro ⟨rfl, h⟩
    exact ⟨t, rfl, by simp [h]⟩

/-- Elements that are left out, also by `null`, are none; all others are read in order. -/
theorem gain_ne_nil_of_elementsAt {es : List ElementDescription}
    (h : elementsAt path j = accepted es) : ∀ e ∈ es, e.gain ≠ [] := by
  have hlist (h : listAt elementAt path j = accepted es) : ∀ e ∈ es, e.gain ≠ [] := by
    obtain ⟨xs, rfl, hxs⟩ := listAt_eq_accepted.mp h
    intro e he
    have hmem : accepted e ∈ es.map accepted := List.mem_map_of_mem he
    rw [← hxs, List.mem_mapIdx] at hmem
    obtain ⟨i, hi, hread⟩ := hmem
    exact gain_ne_nil_of_elementAt hread
  cases j with
  | null =>
    cases h
    simp
  | _ => exact hlist h

end Model

end FluxBalance
