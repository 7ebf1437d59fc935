import FluxBalance.Proofs.Library.Readings
import FluxBalance.Proofs.Library.Uniform
import FluxBalance.Proofs.Network.Reversal

/-!
# Reversals that are asked for

To reverse an element is to ask for it between exchanged ends, with the negative gain if the gain of
its kind has a direction. A gain may be a matrix, a number or nested lists, and may be repeated for
each component; its negative is read and repeated in the same way. The kinds and the constructors of
the standard libraries then make the reversal, whatever else they compute from the gain.

## Main definitions and results

* `neg`, `Numeric.toMatrix_neg`: the negative of a gain, and that it is read as the negative matrix;
* `reversed`, `matches_of_new`: the gain of a reversal makes the reversal;
* `Constructor.Reversible`: a constructor makes the reversal when it is asked for.
-/

namespace FluxBalance

open FluxBalance.Computation Network

variable {α : Type} [Scalar α]

/-! ### Negative matrices -/

namespace DenseMatrix

private theorem neg_eq_map (A : DenseMatrix α) :
    A.neg = ⟨A.rows, A.cols, A.data.map fun v => v.map fun x => -x⟩ := by
  refine ext_entry rfl rfl fun i j hi hj => ?_
  have hi : i < A.rows := hi
  have hj : j < A.cols := hj
  rw [entry_neg hi hj]
  simp [entry, hi, hj]

private theorem toList_neg (A : DenseMatrix α) : A.neg.toList = A.toList.map fun x => -x := by
  rw [neg_eq_map, toList, toList, toRows, toRows, List.map_flatten, Vector.toList_map,
    List.map_map, List.map_map]
  simp only [Function.comp_def, Vector.toList_map]

/-- The values of a column from top to bottom are its entries. -/
private theorem entry_column {values : List α} {i : Nat} (hi : i < values.length) :
    (column values).entry i 0 = values[i] := by
  have hsize : i < values.toArray.size := hi
  rw [column, entry_ofFn _ hsize Nat.one_pos]
  simp [hi]

/-- The column of the opposite numbers is the opposite column. -/
private theorem column_neg (values : List α) :
    column (values.map fun x => -x) = (column values).neg := by
  refine ext_entry (by simp [column, neg]) rfl fun i j hi hj => ?_
  obtain rfl : j = 0 := Nat.lt_one_iff.mp hj
  have hi : i < values.length := by simpa [column] using hi
  have hrows : i < (column values).rows := hi
  rw [entry_neg hrows Nat.one_pos, entry_column hi, entry_column (by simpa using hi),
    List.getElem_map]

/-- Rows of the length of the first one make the matrix of their entries. -/
private theorem ofRows_cons_eq_ok_iff {first : List α} {rest : List (List α)} {A : DenseMatrix α} :
    ofRows (first :: rest) = .ok A ↔ (∀ r ∈ first :: rest, r.length = first.length) ∧
      A = ofFn (first :: rest).length first.length fun i j =>
        ((first :: rest).getD i []).getD j 0 := by
  have hentry (i j : Nat) : (((first :: rest).map (·.toArray)).toArray.getD i #[]).getD j 0 =
      ((first :: rest).getD i []).getD j 0 := by
    simp only [Array.getD_eq_getD_getElem?, List.getElem?_toArray, List.getElem?_map,
      List.getD_eq_getElem?_getD]
    cases (first :: rest)[i]? <;> simp
  have hragged : ((first :: rest).any fun r => r.length != first.length) = true ↔
      ¬∀ r ∈ first :: rest, r.length = first.length := by
    simp only [List.any_eq_true, bne_iff_ne, ne_eq, not_forall, exists_prop]
  simp only [ofRows, hentry, hragged, ite_not, List.size_toArray, List.length_map]
  split
  · rename_i hlength
    constructor
    · rintro ⟨⟩
      exact ⟨hlength, rfl⟩
    · rintro ⟨-, rfl⟩
      rfl
  · rename_i hlength
    simp only [reduceCtorEq, hlength, false_and]

/-- Rows of the opposite numbers make the opposite matrix. -/
private theorem ofRows_neg {rows : List (List α)} {A : DenseMatrix α} (h : ofRows rows = .ok A) :
    ofRows (rows.map (List.map fun x => -x)) = .ok A.neg := by
  cases rows with
  | nil =>
    cases h
    exact congrArg _ (ext_entry rfl rfl fun i _ hi _ => absurd hi (Nat.not_lt_zero i))
  | cons first rest =>
    obtain ⟨hlength, rfl⟩ := ofRows_cons_eq_ok_iff.mp h
    rw [List.map_cons]
    refine ofRows_cons_eq_ok_iff.mpr ⟨?_, ?_⟩
    · simpa using hlength
    · refine ext_entry (by simp [neg]) (by simp [neg]) fun i j hi hj => ?_
      have hi : i < (first :: rest).length := hi
      have hj : j < first.length := hj
      have hj' : j < (first :: rest)[i].length := (hlength _ (List.getElem_mem hi)).symm ▸ hj
      rw [← List.map_cons, entry_neg hi hj, entry_ofFn _ hi hj,
        entry_ofFn _ (by simpa using hi) (by simpa using hj)]
      simp only [List.getD_eq_getElem?_getD, List.getElem?_map, List.getElem?_eq_getElem hi,
        Option.map_some, Option.getD_some, List.getElem?_eq_getElem hj']

end DenseMatrix

/-! ### Negative gains -/

namespace Gain

/-- The gain with all numbers negated. -/
def neg : Gain α → Gain α
  | matrix A => matrix A.neg
  | number x => number (-x)
  | list items => list (items.map neg)
  | g => g

/-- The gain of the reversal of an element of the kind. -/
def reversed (kind : ElementKind) (g : Gain α) : Gain α := if kind.isDirected then g.neg else g

/-- The opposite of a gain is a number if the gain is. -/
private theorem isNumber_neg (g : Gain α) : g.neg.isNumber = g.isNumber := by
  cases g <;> simp [neg, isNumber]

variable {g : Gain α}

/-- The opposite of a `Numeric` gain is read as the opposite entry. -/
theorem Numeric.entry_neg (hg : g.Numeric) {x : α} (h : g.entry = .ok x) :
    g.neg.entry = .ok (-x) := by
  cases hg with
  | number y =>
    cases h
    rw [neg]
    rfl
  | _ => cases h

/-- The opposite of a `Numeric` gain has the opposites for its row. -/
private theorem Numeric.row_neg (hg : g.Numeric) {parts : List (Gain α)} (h : g.row? = some parts) :
    g.neg.row? = some (parts.map neg) := by
  cases hg with
  | number y => cases h
  | matrix A =>
    cases h
    rw [neg, row?, DenseMatrix.toList_neg, List.map_map, List.map_map]
    simp only [Function.comp_def, neg]
  | list hitems =>
    cases h
    rw [neg]
    rfl

/-- Entries that are read are read as the negative ones from the negative gains. -/
private theorem mapM_entry_neg {items : List (Gain α)} (hitems : ∀ g ∈ items, g.Numeric)
    {xs : List α} (h : items.mapM entry = .ok xs) :
    (items.map neg).mapM entry = .ok (xs.map fun x => -x) :=
  except_mapM_eq_ok.mpr <|
    forall₂_map (fun g hg _ hx => (hitems g hg).entry_neg hx) (except_mapM_eq_ok.mp h)

/-- Rows make a matrix if they are rows of one length whose entries can be read. -/
private theorem ofRows_eq_ok_iff {items : List (Gain α)} {A : DenseMatrix α} :
    ofRows items = .ok A ↔ ∃ (rows : List (List (Gain α))) (values : List (List α)),
      List.Forall₂ (fun g parts => g.row? = some parts) items rows ∧
      (∀ row ∈ rows, row.length = (rows.headD []).length) ∧
      List.Forall₂ (fun row xs => row.mapM entry = .ok xs) rows values ∧
      DenseMatrix.ofRows values = .ok A := by
  constructor
  · intro h
    obtain ⟨rows, hrows, h⟩ := except_bind_eq_ok.mp h
    dsimp only at h
    split at h
    · cases h
    rename_i hlength
    obtain ⟨values, hvalues, h⟩ := except_bind_eq_ok.mp h
    refine ⟨rows, values, (except_mapM_eq_ok.mp hrows).imp fun g parts hparts => ?_,
      not_not.mp (mt any_length_ne_iff.mpr hlength), except_mapM_eq_ok.mp hvalues, ?_⟩
    · cases hg : g.row? <;> simp_all
    · cases hB : DenseMatrix.ofRows values <;> simp_all
  · rintro ⟨rows, values, hrows, hlength, hvalues, h⟩
    refine except_bind_eq_ok.mpr
      ⟨rows, except_mapM_eq_ok.mpr (hrows.imp fun g parts hparts => ?_), ?_⟩
    · rw [hparts]
    · dsimp only
      rw [if_neg (mt any_length_ne_iff.mp (not_not.mpr hlength))]
      refine except_bind_eq_ok.mpr ⟨values, except_mapM_eq_ok.mpr hvalues, ?_⟩
      rw [h]

/-- Rows of the opposites of `Numeric` gains are read as the opposite matrix. -/
private theorem ofRows_neg {items : List (Gain α)} (hitems : ∀ g ∈ items, g.Numeric)
    {A : DenseMatrix α} (h : ofRows items = .ok A) : ofRows (items.map neg) = .ok A.neg := by
  obtain ⟨rows, values, hrows, hlength, hvalues, hA⟩ := ofRows_eq_ok_iff.mp h
  have hnumeric : ∀ row ∈ rows, ∀ g ∈ row, g.Numeric := by
    intro row hmem
    obtain ⟨g, hg, hrow⟩ := exists_of_mem_of_forall₂ hrows row hmem
    exact (hitems g hg).row hrow
  refine ofRows_eq_ok_iff.mpr ⟨rows.map (List.map neg), values.map (List.map fun x => -x),
    forall₂_map (fun g hg _ hrow => (hitems g hg).row_neg hrow) hrows, ?_,
    forall₂_map (fun row hmem _ hxs => mapM_entry_neg (hnumeric row hmem) hxs) hvalues,
    DenseMatrix.ofRows_neg hA⟩
  have hhead : ((rows.map (List.map neg)).headD []).length = (rows.headD []).length := by
    cases rows <;> simp
  simp only [hhead, List.forall_mem_map, List.length_map]
  exact hlength

/-- **The negative gain is read as the negative matrix.** -/
theorem Numeric.toMatrix_neg (hg : g.Numeric) {A : DenseMatrix α} (h : g.toMatrix = .ok A) :
    g.neg.toMatrix = .ok A.neg := by
  cases hg with
  | matrix B =>
    cases h
    rw [neg]
    rfl
  | number x =>
    cases h
    rw [neg, ← DenseMatrix.column_neg]
    rfl
  | @list items hitems =>
    have hnumbers : (!(items.map neg).isEmpty && (items.map neg).all Gain.isNumber) =
        (!items.isEmpty && items.all Gain.isNumber) := by
      simp [isNumber_neg, Function.comp_def]
    rw [toMatrix, ofItems] at h
    rw [neg, toMatrix, ofItems, hnumbers]
    -- The negative gain consists of numbers alone exactly if the gain does.
    split at h
    · rename_i hall
      obtain ⟨xs, hxs, ⟨⟩⟩ := except_bind_eq_ok.mp h
      rw [if_pos hall, mapM_entry_neg hitems hxs, ← DenseMatrix.column_neg]
      rfl
    · rename_i hall
      rw [if_neg hall]
      exact ofRows_neg hitems h

end Gain

/-! ### Elements between exchanged ends -/

/-- The negative of a gain that is repeated is repeated, too. -/
private theorem columnGain_neg {what : String} {gain checked : DenseMatrix α} {w : Nat}
    (h : columnGain what gain w = .ok checked) : columnGain what gain.neg w = .ok checked.neg := by
  have hshape : gain.neg.shape = gain.shape := rfl
  unfold columnGain at h ⊢
  rw [hshape]
  split at h
  · rename_i hw
    cases h
    rw [if_pos hw]
  · rename_i hw
    split at h
    · rename_i hone
      cases h
      obtain ⟨hrows, hcols⟩ := Prod.mk.inj hone
      rw [if_neg hw, if_pos hone, ← DenseMatrix.column_neg, List.map_replicate,
        DenseMatrix.entry_neg (hrows ▸ Nat.one_pos) (hcols ▸ Nat.one_pos)]
    · cases h

/-- A directed kind accepts the opposite of a gain that it accepts. -/
private theorem ElementKind.checkGain_neg {kind : ElementKind} (hk : kind.isDirected = true)
    {gain checked : DenseMatrix α} {w : Nat} (h : kind.checkGain gain w = .ok checked) :
    kind.checkGain gain.neg w = .ok checked.neg := by
  cases kind with
  | constantFlux => exact columnGain_neg h
  | potentialDrive => exact columnGain_neg h
  | _ => cases hk

namespace Element

variable {net : Network α} {kind : ElementKind} {input output : Int} {gain gain' : Gain α}
  {e e' : Element α}

/-- What an element is made of. -/
private theorem parts_of_new (h : Element.new net kind input output gain = .ok e) :
    ∃ n m A, net.node input = .ok n ∧ net.node output = .ok m ∧ m.components = n.components ∧
      gain.toMatrix = .ok A ∧ kind.checkGain A n.components = .ok e.gain ∧ e.kind = kind ∧
      (e.input : Int) = input ∧ (e.output : Int) = output := by
  have hends := ends_of_new h
  obtain ⟨n, hn, h⟩ := except_bind_eq_ok.mp h
  obtain ⟨m, hm, h⟩ := except_bind_eq_ok.mp h
  dsimp only at h
  split at h
  · cases h
  split at h
  · cases h
  rename_i hwidth
  obtain ⟨A, hA, h⟩ := except_bind_eq_ok.mp h
  split at h
  · cases h
  rename_i checked hchecked
  obtain ⟨drivesOutput, -, ⟨⟩⟩ := except_bind_eq_ok.mp h
  exact ⟨n, m, A, hn, hm, (not_not.mp hwidth).symm, hA, hchecked, rfl, hends⟩

/-- An element that `Element.new` makes is of the kind asked for. -/
theorem kind_of_new (h : Element.new net kind input output gain = .ok e) : e.kind = kind := by
  obtain ⟨-, -, -, -, -, -, -, -, hkind, -⟩ := parts_of_new h
  exact hkind

/-- **Between exchanged ends and from the gain of the reversal the reversal is made.** -/
theorem matches_of_new (h : Element.new net kind input output gain = .ok e)
    (h' : Element.new net kind output input gain' = .ok e')
    (hgain : ∀ A, gain.toMatrix = .ok A →
      gain'.toMatrix = .ok (if kind.isDirected then A.neg else A)) : Matches true e e' := by
  obtain ⟨n, m, A, hn, hm, hwidth, hA, hchecked, hkind, hin, hout⟩ := parts_of_new h
  obtain ⟨m', n', B, hm', hn', -, hB, hchecked', hkind', hin', hout'⟩ := parts_of_new h'
  refine ⟨hkind'.trans hkind.symm, ?_, ?_, ?_⟩
  · rw [if_pos rfl]
    omega
  · rw [if_pos rfl]
    omega
  · -- Both nodes have one width, so both gains are given their shapes in the same way.
    rw [hm] at hm'
    cases hm'
    rw [hgain A hA] at hB
    cases hB
    rw [hwidth] at hchecked'
    rw [hkind, Bool.true_and]
    cases hk : kind.isDirected with
    | false =>
      simp only [hk, Bool.false_eq_true, if_false] at hchecked' ⊢
      exact Except.ok.inj (hchecked'.symm.trans hchecked)
    | true =>
      simp only [hk, if_true] at hchecked' ⊢
      exact Except.ok.inj (hchecked'.symm.trans (ElementKind.checkGain_neg hk hchecked))

end Element

/-! ### Constructors -/

/-- Between exchanged ends and from the gain of the reversal the constructor makes reversals. -/
def Constructor.Reversible (f : Constructor α) : Prop :=
  ∀ {net : Network α} {input output : Int} {gain : Gain α} {e e' : Element α}, gain.Numeric →
    f net input output gain = .ok e → f net output input (gain.reversed e.kind) = .ok e' →
    Element.Matches true e e'

theorem Element.reversible_new (kind : ElementKind) :
    Constructor.Reversible (α := α) fun net => Element.new net kind := by
  intro net input output gain e e' hgain h h'
  refine matches_of_new h h' fun A hA => ?_
  rw [kind_of_new h, Gain.reversed]
  split
  · exact hgain.toMatrix_neg hA
  · exact hA

namespace Library

private theorem reversible_positive (kind : ElementKind) (what : String) :
    Constructor.Reversible (positive (α := α) kind what) := by
  intro net input output gain e e' hgain h h'
  obtain ⟨_, -, h⟩ := except_bind_eq_ok.mp h
  obtain ⟨_, -, h⟩ := except_bind_eq_ok.mp h
  obtain ⟨_, -, h'⟩ := except_bind_eq_ok.mp h'
  obtain ⟨_, -, h'⟩ := except_bind_eq_ok.mp h'
  exact Element.reversible_new kind hgain h h'

/-- A constructor is `Reversible` if it makes conductive elements, and from one gain in both
directions. -/
private theorem reversible_of_conductive {f : Constructor α}
    (hf : ∀ {net : Network α} {input output : Int} {gain : Gain α} {e : Element α},
      f net input output gain = .ok e →
        ∃ given, Element.new net .conductive input output given = .ok e ∧
          ∀ e', f net output input gain = .ok e' →
            Element.new net .conductive output input given = .ok e') :
    Constructor.Reversible f := by
  intro net input output gain e e' _ h h'
  obtain ⟨given, hnew, hback⟩ := hf h
  rw [Element.kind_of_new hnew] at h'
  exact Element.matches_of_new hnew (hback e' h') fun _ hA => hA

private theorem reversible_resistor : Constructor.Reversible (resistor (α := α)) := by
  refine reversible_of_conductive fun {net input output gain e} h => ?_
  obtain ⟨values, hvalues, h⟩ := except_bind_eq_ok.mp h
  obtain ⟨_, hpositive, h⟩ := except_bind_eq_ok.mp h
  obtain ⟨n, hn, h⟩ := except_bind_eq_ok.mp h
  obtain ⟨conductance, hconductance, h⟩ := except_bind_eq_ok.mp h
  obtain ⟨n', m, -, hn', hm, hwidth, -⟩ := Element.parts_of_new h
  refine ⟨_, h, fun e' h' => ?_⟩
  rw [hn] at hn'
  cases hn'
  obtain ⟨_, hvalues', h'⟩ := except_bind_eq_ok.mp h'
  obtain ⟨_, -, h'⟩ := except_bind_eq_ok.mp h'
  obtain ⟨_, hm', h'⟩ := except_bind_eq_ok.mp h'
  obtain ⟨_, hconductance', h'⟩ := except_bind_eq_ok.mp h'
  -- The other end has as many components, so the conductance is the same.
  rw [hvalues] at hvalues'
  cases hvalues'
  rw [hm] at hm'
  cases hm'
  rw [hwidth, hconductance] at hconductance'
  cases hconductance'
  exact h'

private theorem reversible_conductor : Constructor.Reversible (conductor (α := α)) := by
  refine reversible_of_conductive fun {net input output gain e} h => ?_
  obtain ⟨values, hvalues, h⟩ := except_bind_eq_ok.mp h
  split at h
  · rename_i ratio
    refine ⟨_, h, fun e' h' => ?_⟩
    obtain ⟨_, hvalues', h'⟩ := except_bind_eq_ok.mp h'
    rw [hvalues] at hvalues'
    cases hvalues'
    exact h'
  · rename_i length conductivity
    obtain ⟨_, -, h⟩ := except_bind_eq_ok.mp h
    refine ⟨_, h, fun e' h' => ?_⟩
    obtain ⟨_, hvalues', h'⟩ := except_bind_eq_ok.mp h'
    rw [hvalues] at hvalues'
    cases hvalues'
    obtain ⟨_, -, h'⟩ := except_bind_eq_ok.mp h'
    exact h'
  · cases h

private theorem reversible_convectionInterface :
    Constructor.Reversible (convectionInterface (α := α)) := by
  refine reversible_of_conductive fun {net input output gain e} h => ?_
  obtain ⟨values, hvalues, h⟩ := except_bind_eq_ok.mp h
  split at h
  · rename_i coefficient
    refine ⟨_, h, fun e' h' => ?_⟩
    obtain ⟨_, hvalues', h'⟩ := except_bind_eq_ok.mp h'
    rw [hvalues] at hvalues'
    cases hvalues'
    exact h'
  · cases h

end Library

/-- The constructors of the standard libraries are `Reversible`. -/
private theorem Catalogue.reversible_standard :
    ∀ l ∈ (Catalogue.standard : Catalogue α), ∀ entry ∈ l.2, Constructor.Reversible entry.2 := by
  simp only [standard, Library.circuit, Library.heat, Library.hydraulic, List.forall_mem_cons,
    List.not_mem_nil, false_implies, implies_true, and_true]
  exact ⟨⟨Library.reversible_resistor, Element.reversible_new _, Element.reversible_new _⟩,
    ⟨Library.reversible_conductor, Library.reversible_convectionInterface,
      Element.reversible_new _, Element.reversible_new _⟩,
    Library.reversible_positive _ _, Library.reversible_positive _ _, Element.reversible_new _,
    Element.reversible_new _⟩

/-- What is made under a name of a standard library is `Reversible`. -/
theorem ElementSpec.reversible_make_named (name : String) (modelType : Option String) :
    Constructor.Reversible (α := α) fun net input output gain =>
      (ElementSpec.named name).make .standard modelType net input output gain := by
  intro net input output gain e e' hgain h h'
  obtain ⟨f, hf, h⟩ := except_bind_eq_ok.mp h
  obtain ⟨f', hf', h'⟩ := except_bind_eq_ok.mp h'
  obtain ⟨l, hl, entry, hentry, -, rfl⟩ := Catalogue.mem_of_lookup hf
  rw [hf] at hf'
  cases hf'
  exact Catalogue.reversible_standard l hl entry hentry hgain h h'

end FluxBalance
