import FluxBalance.Proofs.Library.Faults

/-!
# Gains that consist of numbers

A gain may be many things that are not numbers: a text, nothing, an integer that is too large. Where
it consists of numbers, all items that either reading looks at are numbers, so no fault gets out.

## Main definitions and results

* `Numeric`: gains that consist of numbers;
* `Numeric.not_faultsAsMatrix`, `Numeric.not_faultsAsValues`: no fault gets out of them.
-/

namespace FluxBalance.Gain

variable {α : Type}

/-- The gain is a matrix, a number or a list of such. -/
inductive Numeric : Gain α → Prop
  | matrix (A : DenseMatrix α) : Numeric (.matrix A)
  | number (x : α) : Numeric (.number x)
  | list {items : List (Gain α)} : (∀ g ∈ items, Numeric g) → Numeric (.list items)

private theorem mem_allLeaves {g : Gain α} {items : List (Gain α)} :
    g ∈ allLeaves items ↔ ∃ h ∈ items, g ∈ h.leaves := by
  induction items with
  | nil => simp [allLeaves]
  | cons h rest ih => simp [allLeaves, ih]

/-- The innermost items of a `Numeric` gain are numbers. -/
theorem Numeric.leaves {g : Gain α} (h : g.Numeric) : ∀ l ∈ g.leaves, ∃ x, l = .number x := by
  induction h with
  | matrix A => simp [Gain.leaves]
  | number x => simp [Gain.leaves]
  | list _ ih =>
    intro l hl
    rw [Gain.leaves, mem_allLeaves] at hl
    obtain ⟨g, hg, hl⟩ := hl
    exact ih g hg l hl

/-- The parts of a row of a `Numeric` gain are numeric. -/
theorem Numeric.row {g : Gain α} (h : g.Numeric) {parts : List (Gain α)}
    (hrow : g.row? = some parts) : ∀ p ∈ parts, p.Numeric := by
  cases h with
  | number x => cases hrow
  | matrix A =>
    cases hrow
    simpa using fun x _ => .number x
  | list hitems =>
    cases hrow
    exact hitems

/-- The entries of a `Numeric` gain are numeric. -/
theorem Numeric.entries {g : Gain α} (hg : g.Numeric) {entries : List (Gain α)}
    (h : g.Entries entries) : ∀ p ∈ entries, p.Numeric := by
  cases h with
  | number => simpa using hg
  | column =>
    cases hg with
    | list hitems => exact hitems
  | rows hrows =>
    cases hg with
    | list hitems =>
      intro p hp
      obtain ⟨row, hrow, hp⟩ := List.mem_flatten.mp hp
      obtain ⟨g, hg, hparts⟩ := exists_of_mem_of_forall₂ hrows row hrow
      exact (hitems g hg).row hparts p hp
  | text => cases hg

variable [Scalar α] {g : Gain α}

/-- A `Numeric` gain is read as a matrix without a fault. -/
theorem Numeric.not_faultsAsMatrix (hg : g.Numeric) (fault : Fault) :
    ¬g.FaultsAsMatrix fault := by
  rintro ⟨before, bad, after, hentries, -, hbad⟩
  have hnumeric : bad.Numeric := hg.entries hentries bad (by simp)
  cases hbad <;> cases hnumeric

/-- A `Numeric` gain is read as a list of values without a fault. -/
theorem Numeric.not_faultsAsValues (hg : g.Numeric) (fault : Fault) :
    ¬g.FaultsAsValues fault := by
  rintro ⟨-, _, before, after, -, -, hleaves, -⟩
  obtain ⟨x, hx⟩ := hg.leaves .oversized (by rw [hleaves]; simp)
  cases hx

end FluxBalance.Gain
