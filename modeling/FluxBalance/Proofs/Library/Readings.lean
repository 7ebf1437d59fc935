import FluxBalance.Proofs.Library.Numeric

/-!
# How constructors read their gains

A constructor of the standard libraries reads its gain as a matrix, as numbers, or as both. It reads
numbers before it looks at the nodes, and a matrix after the nodes have been found to be `Joinable`;
a gain that it has computed from numbers can be read in any case. So which faults it lets out
follows from the readings that it makes, and everything else that goes wrong is an error of
elements: an end is missing, or the element cannot be made. Where the gain consists of numbers,
nothing else can go wrong.

## Main definitions and results

* `Reading`, `reading`: how a constructor reads its gain, and by which name;
* `Constructor.Reads`, `reads_of_lookup`: the constructors of the standard libraries read as
  `reading` says;
* `errsBy_make`, `make_eq_fault`: making an element fails by an `Error.OfElement` or by a fault that
  the specification `LetsOut`.
-/

namespace FluxBalance

open FluxBalance.Computation Network

variable {α : Type}

/-! ### Elements that are made -/

private theorem Network.errsBy_node (net : Network α) (index : Int) :
    ErrsBy Error.OfElement (net.node index) := by
  unfold node
  split
  · exact .error (.missingEndpoint _ _)
  · split
    · exact .ok _
    · exact .error (.missingEndpoint _ _)

/-- Both nodes exist, they are not the same, and they have equally many `components`. -/
def Network.Joinable (net : Network α) (input output : Int) : Prop :=
  ∃ before after, net.node input = .ok before ∧ net.node output = .ok after ∧ input ≠ output ∧
    before.components = after.components

/-- Ends that cannot be joined are an error of elements. -/
private theorem Element.errsBy_planned (net : Network α) (kind : ElementKind) (input output : Int) :
    ErrsBy Error.OfElement (planned net kind input output) := by
  unfold planned
  split
  · refine .bind (net.errsBy_node _) fun before => .bind (net.errsBy_node _) fun after => ?_
    dsimp only
    split
    · exact .error (.element _)
    · exact .ok _
  · exact .ok _

variable [Scalar α]

namespace Element

variable {net : Network α} {kind : ElementKind} {input output : Int} {gain : Gain α} {fault : Fault}

variable (net kind input output gain) in
/-- The gain of an element is read once its ends have been found to be `Joinable`. -/
theorem errsBy_new :
    ErrsBy (Error.OfElementOr fun fault => net.Joinable input output ∧ gain.FaultsAsMatrix fault)
      (Element.new net kind input output gain) := by
  refine .bind_of_ok (errsBy_ofElementOr (net.errsBy_node _)) fun before hbefore =>
    .bind_of_ok (errsBy_ofElementOr (net.errsBy_node _)) fun after hafter => ?_
  dsimp only
  split
  · exact .error (.ofElement (.element _))
  rename_i hne
  split
  · exact .error (.ofElement (.element _))
  rename_i hcomponents
  have hjoinable : net.Joinable input output :=
    ⟨before, after, hbefore, hafter, hne, not_not.mp hcomponents⟩
  refine .bind (gain.errsBy_toMatrix.mono fun _ h => h.mono fun _ h => ⟨hjoinable, h⟩)
    fun given => ?_
  split
  · exact .error (.ofElement (.element _))
  · exact .bind (errsBy_ofElementOr (errsBy_planned net kind input output)) fun _ => .ok _

/-- Between ends that are `Joinable` a gain that `FaultsAsMatrix` lets its fault out. -/
private theorem new_eq_fault (hjoinable : net.Joinable input output)
    (hgain : gain.FaultsAsMatrix fault) :
    Element.new net kind input output gain = .error (.fault fault) := by
  obtain ⟨before, after, hbefore, hafter, hne, hcomponents⟩ := hjoinable
  unfold new
  rw [hbefore, hafter]
  simp only [bind, Except.bind]
  rw [if_neg hne, if_neg (not_not.mpr hcomponents), hgain.toMatrix_eq]

/-- A gain of numbers lets no fault out. -/
private theorem errsBy_new_of_numeric (hgain : gain.Numeric) :
    ErrsBy Error.OfElement (Element.new net kind input output gain) :=
  (errsBy_new net kind input output gain).mono fun _ h =>
    h.ofElement_of_none fun fault hfault => hgain.not_faultsAsMatrix fault hfault.2

/-- What is made between two nodes has them for its ends. -/
theorem ends_of_new {e : Element α} (h : Element.new net kind input output gain = .ok e) :
    (e.input : Int) = input ∧ (e.output : Int) = output := by
  obtain ⟨before, hbefore, h⟩ := except_bind_eq_ok.mp h
  obtain ⟨after, hafter, h⟩ := except_bind_eq_ok.mp h
  obtain ⟨i, rfl, -⟩ := node_eq_ok_iff.mp hbefore
  obtain ⟨o, rfl, -⟩ := node_eq_ok_iff.mp hafter
  dsimp only at h
  split at h
  · cases h
  split at h
  · cases h
  obtain ⟨given, -, h⟩ := except_bind_eq_ok.mp h
  split at h
  · cases h
  obtain ⟨drivesOutput, -, h⟩ := except_bind_eq_ok.mp h
  cases h
  exact ⟨rfl, rfl⟩

end Element

/-! ### Constructors -/

namespace Library

/-- How a constructor reads the gain: as the matrix that it hands on, as numbers from which it
computes the gain of the element, or first as numbers, which have to be positive, and then as the
matrix. -/
inductive Reading where
  | matrix
  | values
  | both

/-- Reading the gain in this way lets the fault out. -/
def Reading.LetsOut (reading : Reading) (net : Network α) (input output : Int) (gain : Gain α)
    (fault : Fault) : Prop :=
  match reading with
  | matrix => net.Joinable input output ∧ gain.FaultsAsMatrix fault
  | values => gain.FaultsAsValues fault
  | both => gain.FaultsAsValues fault ∨
      (∃ xs, gain.values = .ok xs ∧ xs ≠ [] ∧ ∀ x ∈ xs, Scalar.lt 0 x = true) ∧
        net.Joinable input output ∧ gain.FaultsAsMatrix fault

/-- How the constructor of the given name reads the gain. -/
def reading (name : String) : Reading :=
  match name with
  | "resistor" | "conductor" | "convection_interface" => .values
  | "pipe" | "orifice" => .both
  | _ => .matrix

end Library

open Library

/-- What the constructor makes joins the nodes that were asked for, and it fails with an error of
elements or with a fault that the reading of the gain lets out. -/
structure Constructor.Reads (f : Constructor α) (reading : Reading) : Prop where
  ends : ∀ {net : Network α} {input output : Int} {gain : Gain α} {e : Element α},
    f net input output gain = .ok e → (e.input : Int) = input ∧ (e.output : Int) = output
  errs : ∀ (net : Network α) (input output : Int) (gain : Gain α),
    ErrsBy (Error.OfElementOr (reading.LetsOut net input output gain)) (f net input output gain)
  faults : ∀ {net : Network α} {input output : Int} {gain : Gain α} {fault : Fault},
    reading.LetsOut net input output gain fault →
      f net input output gain = .error (.fault fault)

namespace Library

/-- Values that make no diagonal gain are an error of elements. -/
private theorem errsBy_diagonal (values : List α) (components : Nat) (what : String) :
    ErrsBy Error.OfElement (diagonal values components what) := by
  unfold diagonal
  dsimp only
  split <;> split <;> first | exact .ok _ | exact .error (.element _)

/-- The check `requirePositive` accepts values that are all positive, of which there is at least
one. -/
private theorem requirePositive_eq_ok_iff {values : List α} {what : String} {u : Unit} :
    requirePositive values what = .ok u ↔
      values ≠ [] ∧ ∀ x ∈ values, Scalar.lt 0 x = true := by
  have hrefused : (values.isEmpty || values.any fun x => !Scalar.lt 0 x) = true ↔
      ¬(values ≠ [] ∧ ∀ x ∈ values, Scalar.lt 0 x = true) := by
    simp [Classical.or_iff_not_imp_left]
  rw [requirePositive]
  split
  · rename_i h
    simpa using hrefused.mp h
  · rename_i h
    simpa using not_not.mp (mt hrefused.mpr h)

/-- Values that are not positive are an error of elements. -/
private theorem errsBy_requirePositive (values : List α) (what : String) :
    ErrsBy Error.OfElement (requirePositive values what) := by
  unfold requirePositive
  split
  · exact .error (.element _)
  · exact .ok _

private theorem reads_new (kind : ElementKind) :
    Constructor.Reads (α := α) (fun net => Element.new net kind) .matrix where
  ends := Element.ends_of_new
  errs net input output gain := Element.errsBy_new net kind input output gain
  faults h := Element.new_eq_fault h.1 h.2

/-- A `positive` gain is read as values first, then as a matrix. -/
private theorem reads_positive (kind : ElementKind) (what : String) :
    Constructor.Reads (positive (α := α) kind what) .both where
  ends h := by
    obtain ⟨values, -, h⟩ := except_bind_eq_ok.mp h
    obtain ⟨_, -, h⟩ := except_bind_eq_ok.mp h
    exact Element.ends_of_new h
  errs net input output gain := by
    refine .bind_of_ok (gain.errsBy_values.mono fun _ h => h.mono fun _ => .inl)
      fun values hvalues => ?_
    refine .bind_of_ok (errsBy_ofElementOr (errsBy_requirePositive values what))
      fun _ hpositive => ?_
    refine (Element.errsBy_new net kind input output gain).mono fun _ h => h.mono fun _ h => .inr ?_
    exact ⟨⟨values, hvalues, requirePositive_eq_ok_iff.mp hpositive⟩, h⟩
  faults h := by
    rcases h with h | ⟨⟨values, hvalues, hpositive⟩, hjoinable, hmatrix⟩
    · exact except_bind_eq_error.mpr (.inl h.values_eq)
    · -- The numbers pass the check, so it is the second reading that fails.
      have hnew : Element.new _ kind _ _ _ = _ := Element.new_eq_fault hjoinable hmatrix
      exact except_bind_eq_error.mpr (.inr ⟨values, hvalues, except_bind_eq_error.mpr
        (.inr ⟨(), requirePositive_eq_ok_iff.mpr hpositive, hnew⟩)⟩)

/-- A constructor that first reads numbers and computes the gain from them. -/
private theorem reads_values {f : Constructor α} {step : List α → Network α → Int → Int →
      Except (Error α) (Element α)}
    (hf : ∀ net input output gain, f net input output gain =
      gain.values >>= fun xs => step xs net input output)
    (hends : ∀ {xs net input output e}, step xs net input output = .ok e →
      (e.input : Int) = input ∧ (e.output : Int) = output)
    (herrs : ∀ xs net input output, ErrsBy Error.OfElement (step xs net input output)) :
    f.Reads .values where
  ends h := by
    rw [hf] at h
    obtain ⟨values, -, h⟩ := except_bind_eq_ok.mp h
    exact hends h
  errs net input output gain := by
    rw [hf]
    exact .bind gain.errsBy_values fun values => errsBy_ofElementOr (herrs values net input output)
  faults h := by
    rw [hf]
    exact except_bind_eq_error.mpr (.inl h.values_eq)

private theorem reads_resistor : Constructor.Reads (resistor (α := α)) .values := by
  refine reads_values (fun _ _ _ _ => rfl) (fun h => ?_) fun values net input output => ?_
  · obtain ⟨_, -, h⟩ := except_bind_eq_ok.mp h
    obtain ⟨n, -, h⟩ := except_bind_eq_ok.mp h
    obtain ⟨conductance, -, h⟩ := except_bind_eq_ok.mp h
    exact Element.ends_of_new h
  · exact .bind (errsBy_requirePositive values _) fun _ => .bind (net.errsBy_node input) fun n =>
      .bind (errsBy_diagonal _ _ _) fun conductance =>
        Element.errsBy_new_of_numeric (.matrix conductance)

private theorem reads_conductor : Constructor.Reads (conductor (α := α)) .values := by
  refine reads_values (fun _ _ _ _ => rfl) (fun h => ?_) fun values net input output => ?_
  · dsimp only at h
    split at h
    · exact Element.ends_of_new h
    · obtain ⟨_, -, h⟩ := except_bind_eq_ok.mp h
      exact Element.ends_of_new h
    · cases h
  · dsimp only
    split
    · exact Element.errsBy_new_of_numeric (.number _)
    · exact .bind (errsBy_requirePositive _ _) fun _ => Element.errsBy_new_of_numeric (.number _)
    · exact .error (.element _)

private theorem reads_convectionInterface :
    Constructor.Reads (convectionInterface (α := α)) .values := by
  refine reads_values (fun _ _ _ _ => rfl) (fun h => ?_) fun values net input output => ?_
  · split at h
    · exact Element.ends_of_new h
    · cases h
  · split
    · exact Element.errsBy_new_of_numeric (.number _)
    · exact .error (.element _)

end Library

/-! ### The standard libraries -/

namespace Catalogue

/-- The constructors of the standard libraries read their gains as their names say. -/
private theorem reads_standard : ∀ l ∈ (standard : Catalogue α), ∀ entry ∈ l.2,
    Constructor.Reads entry.2 (Library.reading entry.1) := by
  simp only [standard, circuit, heat, hydraulic, List.forall_mem_cons, List.not_mem_nil,
    false_implies, implies_true, and_true]
  exact ⟨⟨reads_resistor, reads_new _, reads_new _⟩,
    ⟨reads_conductor, reads_convectionInterface, reads_new _, reads_new _⟩,
    reads_positive _ _, reads_positive _ _, reads_new _, reads_new _⟩

/-- A constructor of the standard libraries reads its gain as `Library.reading` says. -/
private theorem reads_of_lookup {name : String} {modelType : Option String} {f : Constructor α}
    (h : lookup .standard name modelType = .ok f) : f.Reads (Library.reading name) := by
  obtain ⟨l, hl, entry, hentry, rfl, rfl⟩ := mem_of_lookup h
  exact reads_standard l hl entry hentry

omit [Scalar α] in
/-- A name that is not in a library, or in several ones without a model type, is refused. -/
private theorem errsBy_lookup (c : Catalogue α) (name : String) (modelType : Option String) :
    ErrsBy Error.OfElement (c.lookup name modelType) := by
  unfold lookup
  split
  · split
    · exact .ok _
    · exact .error (.element _)
  · split
    · exact .ok _
    · exact .error (.element _)
    · exact .error (.element _)

end Catalogue

namespace ElementSpec

/-- What is specified is a kind or a name. -/
def BuiltIn : ElementSpec α → Prop
  | kind _ | named _ => True
  | _ => False

/-- How the specified constructor reads the gain. -/
def reading : ElementSpec α → Reading
  | named name => Library.reading name
  | _ => .matrix

/-- What a `BuiltIn` specification resolves to reads its gain as its `reading` says. -/
private theorem reads_of_resolve {spec : ElementSpec α} (hspec : spec.BuiltIn)
    {modelType : Option String} {f : Constructor α}
    (h : spec.resolve .standard modelType = .ok f) : f.Reads spec.reading := by
  cases spec with
  | kind k =>
    cases h
    exact reads_new k
  | named name => exact Catalogue.reads_of_lookup h
  | _ => exact hspec.elim

private theorem errsBy_resolve (spec : ElementSpec α) (c : Catalogue α)
    (modelType : Option String) : ErrsBy Error.OfElement (spec.resolve c modelType) := by
  cases spec with
  | named name => exact c.errsBy_lookup name modelType
  | _ => exact .ok _

/-- Making what is specified lets the fault out: there is a constructor, and its reading of the gain
does. -/
def LetsOut (spec : ElementSpec α) (modelType : Option String) (net : Network α)
    (input output : Int) (gain : Gain α) (fault : Fault) : Prop :=
  (∃ f, spec.resolve .standard modelType = .ok f) ∧
    spec.reading.LetsOut net input output gain fault

variable {spec : ElementSpec α} {modelType : Option String} {net : Network α} {input output : Int}
  {gain : Gain α}

/-- What a `BuiltIn` specification makes between two nodes has them for its ends. -/
theorem ends_of_make (hspec : spec.BuiltIn) {e : Element α}
    (h : spec.make .standard modelType net input output gain = .ok e) :
    (e.input : Int) = input ∧ (e.output : Int) = output := by
  obtain ⟨f, hf, h⟩ := except_bind_eq_ok.mp h
  exact (reads_of_resolve hspec hf).ends h

/-- Making an element fails by an error of elements or by a fault that the specification
`LetsOut`. -/
theorem errsBy_make (hspec : spec.BuiltIn) :
    ErrsBy (Error.OfElementOr (spec.LetsOut modelType net input output gain))
      (spec.make .standard modelType net input output gain) := by
  refine .bind_of_ok (errsBy_ofElementOr (spec.errsBy_resolve _ _)) fun f hf => ?_
  exact ((reads_of_resolve hspec hf).errs net input output gain).mono fun _ h =>
    h.mono fun _ h => ⟨⟨f, hf⟩, h⟩

/-- A fault that the specification `LetsOut` does come out. -/
theorem make_eq_fault (hspec : spec.BuiltIn) {fault : Fault}
    (h : spec.LetsOut modelType net input output gain fault) :
    spec.make .standard modelType net input output gain = .error (.fault fault) := by
  obtain ⟨⟨f, hf⟩, h⟩ := h
  exact except_bind_eq_error.mpr (.inr ⟨f, hf, (reads_of_resolve hspec hf).faults h⟩)

end ElementSpec

/-! ### Gains of numbers -/

/-- What the constructor makes joins the nodes that were asked for, and numbers are refused only
because an end is missing or the element cannot be made. -/
structure Constructor.Sound (f : Constructor α) : Prop where
  ends : ∀ {net : Network α} {input output : Int} {gain : Gain α} {e : Element α},
    f net input output gain = .ok e → (e.input : Int) = input ∧ (e.output : Int) = output
  errs : ∀ (net : Network α) (input output : Int) {gain : Gain α}, gain.Numeric →
    ErrsBy Error.OfElement (f net input output gain)

/-- A `Numeric` gain lets no fault out, however it is read. -/
private theorem Library.Reading.not_letsOut_of_numeric (reading : Reading) (net : Network α)
    (input output : Int) {gain : Gain α} (hgain : gain.Numeric) (fault : Fault) :
    ¬reading.LetsOut net input output gain fault := by
  cases reading with
  | matrix => exact fun h => hgain.not_faultsAsMatrix fault h.2
  | values => exact hgain.not_faultsAsValues fault
  | both =>
    rintro (h | ⟨-, -, h⟩)
    · exact hgain.not_faultsAsValues fault h
    · exact hgain.not_faultsAsMatrix fault h

/-- What is made under a name of a standard library is made by a sound constructor. -/
theorem ElementSpec.sound_make_named (name modelType : String) :
    Constructor.Sound (α := α)
      fun net input output gain =>
        (ElementSpec.named name).make .standard (some modelType) net input output gain where
  ends h := by
    have hspec : (ElementSpec.named name : ElementSpec α).BuiltIn := trivial
    exact ends_of_make hspec h
  errs net input output _ hgain := by
    have hspec : (ElementSpec.named name : ElementSpec α).BuiltIn := trivial
    exact (errsBy_make hspec).mono fun _ h => h.ofElement_of_none fun fault hfault =>
      Library.Reading.not_letsOut_of_numeric _ net input output hgain fault hfault.2

end FluxBalance
