import FluxBalance.Proofs.Library.Regular

/-!
# Gains that cannot be read

A gain that cannot be read is meant to be one of the reasons why an element cannot be made. Two
kinds of items get out of the readers as faults instead: an integer that is too large to be a
scalar, in either reading, and a text that is no number, where a matrix is read. The reader first
finds the items, by the shape of the gain, and then looks at them one after the other. So a fault
gets out exactly if the first item that cannot be read is of one of these kinds.

## Main definitions and results

* `Error.OfElement`: the errors that say that an element cannot be made;
* `FaultsAsMatrix`, `FaultsAsValues`: gains that let a fault out in one reading or the other;
* `errsBy_toMatrix`, `errsBy_values`: how the readings fail.
-/

namespace FluxBalance

open FluxBalance.Computation Network

variable {α : Type}

/-! ### Errors of elements -/

/-- The error says that an end of an element is missing or that an element cannot be made. -/
inductive Error.OfElement : Error α → Prop
  | missingEndpoint (index : Int) (size : Nat) : OfElement (.missingEndpoint index size)
  | element (cause : ElementError α) : OfElement (.element cause)

/-- The error is one of elements, or a fault of the given kind. -/
inductive Error.OfElementOr (lets : Fault → Prop) : Error α → Prop
  | ofElement {cause : Error α} : cause.OfElement → OfElementOr lets cause
  | fault {fault : Fault} : lets fault → OfElementOr lets (.fault fault)

/-- Errors of elements are among those of `Error.OfElementOr`. -/
theorem errsBy_ofElementOr {β : Type} {lets : Fault → Prop} {x : Except (Error α) β}
    (h : ErrsBy Error.OfElement x) : ErrsBy (Error.OfElementOr lets) x :=
  h.mono fun _ => .ofElement

theorem Error.OfElementOr.mono {lets lets' : Fault → Prop} {cause : Error α}
    (h : cause.OfElementOr lets) (hlets : ∀ fault, lets fault → lets' fault) :
    cause.OfElementOr lets' := by
  cases h with
  | ofElement h => exact .ofElement h
  | fault h => exact .fault (hlets _ h)

/-- If no fault is allowed, the error is one of elements. -/
theorem Error.OfElementOr.ofElement_of_none {lets : Fault → Prop} {cause : Error α}
    (h : cause.OfElementOr lets) (hnone : ∀ fault, ¬lets fault) : cause.OfElement := by
  cases h with
  | ofElement h => exact h
  | fault h => exact absurd h (hnone _)

namespace Gain

/-! ### Entries of a matrix -/

/-- The items that are looked at when the gain is read as a matrix, row after row. Numbers alone are
a column; any other items of a list are rows of one length, and the letters of a text are such
items. -/
inductive Entries : Gain α → List (Gain α) → Prop
  | number {g : Gain α} : g.isNumber = true → Entries g [g]
  | column {items : List (Gain α)} : items ≠ [] → (∀ g ∈ items, g.isNumber = true) →
    Entries (.list items) items
  | rows {items : List (Gain α)} {rows : List (List (Gain α))} :
    List.Forall₂ (fun g parts => g.row? = some parts) items rows →
    (∀ row ∈ rows, row.length = (rows.headD []).length) → Entries (.list items) rows.flatten
  | text {s : String} {entries : List (Gain α)} : Entries (.list (letters s)) entries →
    Entries (.text s) entries

/-- The test for ragged rows finds a row that is not as long as the first one. -/
theorem any_length_ne_iff {rows : List (List (Gain α))} :
    (rows.any fun r => r.length != (rows.headD []).length) = true ↔
      ¬∀ row ∈ rows, row.length = (rows.headD []).length := by
  simp only [List.any_eq_true, bne_iff_ne, ne_eq, not_forall, exists_prop]

/-- The test for a row of numbers finds nothing else in it. -/
private theorem all_isNumber_iff {items : List (Gain α)} :
    (!items.isEmpty && items.all isNumber) = true ↔
      items ≠ [] ∧ ∀ g ∈ items, g.isNumber = true := by
  simp

/-- A row is no number. -/
private theorem isNumber_of_row {g : Gain α} {parts : List (Gain α)} (h : g.row? = some parts) :
    g.isNumber = false := by
  cases g <;> first | rfl | cases h

variable [Scalar α] {g : Gain α} {fault : Fault}

/-- The item is no number that can be an entry of a matrix, and the fault says so. -/
inductive Unreadable : Gain α → Fault → Prop
  | oversized : Unreadable .oversized .overflow
  | text {s : String} : Scalar.ofText? (α := α) s = none → Unreadable (.text s) .badValue

/-- Among the items that are looked at when the gain is read as a matrix, the first one that is no
entry is an unreadable one. -/
def FaultsAsMatrix (g : Gain α) (fault : Fault) : Prop :=
  ∃ before bad after, g.Entries (before ++ bad :: after) ∧ (∀ p ∈ before, ∃ x, p.entry = .ok x) ∧
    bad.Unreadable fault

/-- An entry that is `Unreadable` is read as its fault. -/
private theorem Unreadable.entry_eq (h : g.Unreadable fault) : g.entry = .error (.fault fault) := by
  cases h with
  | oversized => rfl
  | text hs => rw [entry, hs]

/-- Reading an entry fails by a fault only if it is `Unreadable`. -/
theorem errsBy_entry (g : Gain α) : ErrsBy (Error.OfElementOr g.Unreadable) g.entry := by
  cases g with
  | number x => exact .ok x
  | oversized => exact .error (.fault .oversized)
  | text s =>
    rw [entry]
    split
    · exact .ok _
    · rename_i hs
      exact .error (.fault (.text hs))
  | _ => exact .error (.ofElement (.element _))

/-- Reading the entries of a gain faults only if the gain `FaultsAsMatrix`. -/
private theorem Entries.errsBy_mapM {entries : List (Gain α)} (h : g.Entries entries) :
    ErrsBy (Error.OfElementOr g.FaultsAsMatrix) (entries.mapM entry) := by
  intro cause hcause
  obtain ⟨before, bad, after, rfl, hbefore, hbad⟩ := except_mapM_eq_error_iff.mp hcause
  exact (errsBy_entry bad cause hbad).mono fun fault hfault =>
    ⟨before, bad, after, h, hbefore, hfault⟩

/-- Rows are read entry by entry. -/
private theorem ofRows_eq_error {items : List (Gain α)} {rows : List (List (Gain α))}
    {cause : Error α} (hrows : List.Forall₂ (fun g parts => g.row? = some parts) items rows)
    (hlength : ∀ row ∈ rows, row.length = (rows.headD []).length)
    (h : rows.flatten.mapM entry = .error cause) : ofRows items = .error cause := by
  refine except_bind_eq_error.mpr
    (.inr ⟨rows, except_mapM_eq_ok.mpr (hrows.imp fun g parts hparts => ?_), ?_⟩)
  · rw [hparts]
  · dsimp only
    rw [if_neg (mt any_length_ne_iff.mp (not_not.mpr hlength))]
    exact except_bind_eq_error.mpr (.inl (except_mapM_flatten_eq_error_iff.mp h))

/-- If the entries cannot be read, neither can the matrix. -/
private theorem Entries.toMatrix_eq_error {entries : List (Gain α)} (h : g.Entries entries)
    {cause : Error α} (hcause : entries.mapM entry = .error cause) :
    g.toMatrix = .error cause := by
  induction h with
  | @number g hg =>
    rw [List.mapM_cons] at hcause
    rcases except_bind_eq_error.mp hcause with hentry | ⟨_, -, ⟨⟩⟩
    cases g with
    | number x => cases hentry
    | oversized =>
      cases hentry
      rfl
    | _ => cases hg
  | column hne hall =>
    rw [toMatrix, ofItems, if_pos (all_isNumber_iff.mpr ⟨hne, hall⟩)]
    exact except_bind_eq_error.mpr (.inl hcause)
  | @rows items rows hrows hlength =>
    -- A row is no number, so the items are not read as a column.
    have hnumber : ¬((!items.isEmpty && items.all isNumber) = true) := by
      rw [all_isNumber_iff]
      rintro ⟨hne, hall⟩
      cases hrows with
      | nil => exact hne rfl
      | cons hrow _ => exact absurd (hall _ List.mem_cons_self) (by simp [isNumber_of_row hrow])
    rw [toMatrix, ofItems, if_neg hnumber]
    exact ofRows_eq_error hrows hlength hcause
  | text _ ih => exact ih hcause

/-- Reading rows faults only if the list `FaultsAsMatrix`. -/
private theorem errsBy_ofRows (items : List (Gain α)) :
    ErrsBy (Error.OfElementOr (list items).FaultsAsMatrix) (ofRows items) := by
  refine .bind_of_ok (.mapM fun g _ => ?_) fun rows hrows => ?_
  · split
    · exact .ok _
    · exact .error (.ofElement (.element _))
  have hread : List.Forall₂ (fun g parts => g.row? = some parts) items rows := by
    refine (except_mapM_eq_ok.mp hrows).imp fun g parts hparts => ?_
    cases hg : g.row? <;> simp_all
  dsimp only
  split
  · exact .error (.ofElement (.element _))
  -- From here on the shape is known, and with it the entries.
  rename_i hlength
  have hentries : (list items).Entries rows.flatten :=
    .rows hread (not_not.mp (mt any_length_ne_iff.mpr hlength))
  refine .bind (fun cause hcause => ?_) fun values => ?_
  · -- They are read row by row, which fails as reading all of them in one go does.
    exact hentries.errsBy_mapM cause (except_mapM_flatten_eq_error_iff.mpr hcause)
  · split
    · exact .ok _
    · exact .error (.ofElement (.element _))

/-- **A gain that cannot be read as a matrix is refused as elements are**, unless a fault gets
out. -/
theorem errsBy_toMatrix (g : Gain α) : ErrsBy (Error.OfElementOr g.FaultsAsMatrix) g.toMatrix := by
  have hitems (items : List (Gain α)) :
      ErrsBy (Error.OfElementOr (list items).FaultsAsMatrix) (ofItems items) := by
    rw [ofItems]
    split
    · rename_i hnumber
      obtain ⟨hne, hall⟩ := all_isNumber_iff.mp hnumber
      exact .bind (Entries.column hne hall).errsBy_mapM fun _ => .ok _
    · exact errsBy_ofRows items
  cases g with
  | matrix A => exact .ok A
  | number x => exact .bind (.ok x) fun _ => .ok _
  | oversized => exact .error (.fault ⟨[], _, [], .number rfl, nofun, .oversized⟩)
  | nothing => exact .error (.ofElement (.element _))
  | list items => exact hitems items
  | text s =>
    refine (hitems (letters s)).mono fun cause h => h.mono fun fault => ?_
    rintro ⟨before, bad, after, hentries, h⟩
    exact ⟨before, bad, after, .text hentries, h⟩

/-- A gain that `FaultsAsMatrix` is not read as a matrix. -/
theorem FaultsAsMatrix.toMatrix_eq (h : g.FaultsAsMatrix fault) :
    g.toMatrix = .error (.fault fault) := by
  obtain ⟨before, bad, after, hentries, hbefore, hbad⟩ := h
  exact hentries.toMatrix_eq_error
    (except_mapM_eq_error_iff.mpr ⟨before, bad, after, rfl, hbefore, hbad.entry_eq⟩)

/-! ### Numbers of a block -/

/-- The gain is a block that is not too deep, and among its innermost items the first one that is no
number is an oversized integer. -/
def FaultsAsValues (g : Gain α) (fault : Fault) : Prop :=
  fault = .overflow ∧ ∃ extents before after, g.extents? = some extents ∧
    extents.length ≤ depthLimit ∧ g.leaves = before ++ .oversized :: after ∧
    ∀ p ∈ before, ∃ x, p.leafValue = .ok x

/-- Reading a leaf faults only for an integer that is too large. -/
private theorem errsBy_leafValue (g : Gain α) :
    ErrsBy (Error.OfElementOr fun fault => fault = .overflow ∧ g = .oversized) g.leafValue := by
  cases g with
  | number x => exact .ok x
  | oversized => exact .error (.fault ⟨rfl, rfl⟩)
  | text s =>
    rw [leafValue]
    split
    · exact .ok _
    · exact .error (.ofElement (.element _))
  | nothing => exact .ok _
  | _ => exact .error (.ofElement (.element _))

/-- **A gain that cannot be read as numbers is refused as elements are**, unless a fault gets
out. -/
theorem errsBy_values (g : Gain α) : ErrsBy (Error.OfElementOr g.FaultsAsValues) g.values := by
  unfold values
  split
  · exact .ok _
  split
  · exact .error (.ofElement (.element _))
  rename_i extents hextents
  split
  · exact .error (.ofElement (.element _))
  rename_i hdepth
  intro cause hcause
  obtain ⟨before, bad, after, hleaves, hbefore, hbad⟩ := except_mapM_eq_error_iff.mp hcause
  refine (errsBy_leafValue bad cause hbad).mono ?_
  rintro _ ⟨rfl, rfl⟩
  exact ⟨rfl, extents, before, after, hextents, Nat.le_of_not_lt hdepth, hleaves, hbefore⟩

/-- A gain that `FaultsAsValues` is not read as a list of values. -/
theorem FaultsAsValues.values_eq (h : g.FaultsAsValues fault) :
    g.values = .error (.fault fault) := by
  obtain ⟨rfl, extents, before, after, hextents, hdepth, hleaves, hbefore⟩ := h
  unfold values
  split
  · -- The entries of a matrix are numbers.
    rename_i A
    have hmem : oversized ∈ A.toList.map (number (α := α)) := by
      rw [← leaves, hleaves]
      simp
    simp at hmem
  · rw [hextents]
    dsimp only
    rw [if_neg (Nat.not_lt.mpr hdepth)]
    exact except_mapM_eq_error_iff.mpr ⟨before, _, after, hleaves, hbefore, rfl⟩

end Gain

end FluxBalance
