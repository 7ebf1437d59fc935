import FluxBalance.Proofs.Library.Regular

/-!
# Constructors that look at widths only

A constructor is `Uniform` if it looks at nothing but the widths of the nodes: what it makes in a
network is what it makes between unlocked nodes of the same widths without any elements, except that
the locks decide which end a driving element drives, and refuse it between two locked nodes. The
kinds themselves are uniform, and so are the constructors of the standard libraries.

## Main definitions and results

* `Network.bare`: unlocked nodes of the same widths, without elements;
* `Constructor.Uniform`: what is made is made in the bare network as well, but for the end that is
  driven;
* `uniform_standard`: all constructors of the standard libraries are uniform.
-/

namespace FluxBalance

open Network

variable {α : Type} [Scalar α]

/-! ### Networks reduced to widths -/

/-- Unlocked nodes of the same widths, without elements. -/
def Network.bare (net : Network α) : Network α :=
  ⟨net.nodes.map fun n => Node.zero n.components, #[], []⟩

/-- Whether the node exists and is locked. -/
def Network.locked (net : Network α) (i : Nat) : Bool :=
  (net.nodes[i]?.map Node.isLocked).getD false

/-- The element with the end that it drives in a network: the output unless that is locked. One end
of a driving element has to be unlocked. -/
def Element.orient (net : Network α) (e : Element α) : Except (Error α) (Element α) :=
  if e.kind.drives then
    if net.locked e.input && net.locked e.output then
      .error (.element (.bothLocked e.input e.output))
    else .ok { e with drivesOutput := !net.locked e.output }
  else .ok e

private theorem Network.getElem?_bare (net : Network α) (i : Nat) :
    net.bare.nodes[i]? = (net.width? i).map Node.zero := by
  rw [bare, Array.getElem?_map, width?, Option.map_map]
  rfl

/-- Networks of the same widths have the same reduction. -/
theorem Network.bare_eq {a b : Network α} (h : ∀ i, a.width? i = b.width? i) : a.bare = b.bare := by
  have hnodes : a.bare.nodes = b.bare.nodes := Array.ext_getElem? fun i => by
    rw [getElem?_bare, getElem?_bare, h]
  exact congrArg (fun nodes => (⟨nodes, #[], []⟩ : Network α)) hnodes

private theorem Network.node_bare (net : Network α) (index : Int) :
    net.bare.node index = (net.node index).map fun n => Node.zero n.components := by
  unfold node
  split
  · rw [bare, Array.size_map]
    rfl
  · rw [getElem?_bare, width?, bare, Array.size_map]
    cases net.nodes[index.toNat]? <;> rfl

omit [Scalar α] in
private theorem Network.locked_eq {net : Network α} {index : Int} {n : Node α}
    (h : net.node index = .ok n) : net.locked index.toNat = n.isLocked := by
  obtain ⟨i, rfl, hn⟩ := node_eq_ok_iff.mp h
  rw [Int.toNat_natCast, locked, hn]
  rfl

/-! ### Elements -/

omit [Scalar α] in
/-- Which end a driving element drives depends on the locks only. -/
private theorem Element.driveEnd_eq {net : Network α} {input output : Int} {before after : Node α}
    (hi : net.node input = .ok before) (ho : net.node output = .ok after) :
    Element.driveEnd net input output =
      if before.isLocked && after.isLocked then .error (.element (.bothLocked input output))
      else .ok (!after.isLocked) := by
  unfold driveEnd
  rw [hi, ho]
  dsimp only [bind, Except.bind]
  split <;> rfl

/-- What a kind makes depends on the widths of the nodes and on their locks. -/
private theorem Element.new_eq (net : Network α) (kind : ElementKind) (input output : Int)
    (gain : Gain α) : Element.new net kind input output gain =
      Element.new net.bare kind input output gain >>= Element.orient net := by
  unfold Element.new
  rw [node_bare, node_bare]
  cases hi : net.node input with
  | error cause => rfl
  | ok before =>
  cases ho : net.node output with
  | error cause => rfl
  | ok after =>
  have hcomponents (w : Nat) : (Node.zero w : Node α).components = w := rfl
  dsimp only [Except.map, bind, Except.bind]
  simp only [hcomponents]
  by_cases hne : input = output
  · rw [if_pos hne, if_pos hne]
    rfl
  rw [if_neg hne, if_neg hne]
  by_cases hwidth : before.components ≠ after.components
  · rw [if_pos hwidth, if_pos hwidth]
    rfl
  rw [if_neg hwidth, if_neg hwidth]
  cases gain.toMatrix with
  | error cause => rfl
  | ok given =>
  dsimp only
  cases kind.checkGain given before.components with
  | error cause => rfl
  | ok checked =>
  dsimp only
  -- Without locks a driving element drives its output; the locks have the last word.
  obtain ⟨i, rfl, -⟩ := node_eq_ok_iff.mp hi
  obtain ⟨o, rfl, -⟩ := node_eq_ok_iff.mp ho
  have hi' : net.bare.node i = .ok (Node.zero before.components) := by rw [node_bare, hi]; rfl
  have ho' : net.bare.node o = .ok (Node.zero after.components) := by rw [node_bare, ho]; rfl
  have hilocked := locked_eq hi
  have holocked := locked_eq ho
  rw [Int.toNat_natCast] at hilocked holocked
  rw [planned, planned, Element.driveEnd_eq hi ho, Element.driveEnd_eq hi' ho', Int.toNat_natCast,
    Int.toNat_natCast]
  unfold orient
  cases hd : kind.drives with
  | false => simp [hd, pure, Except.pure]
  | true =>
    cases hlocked : before.isLocked && after.isLocked <;>
      simp [Node.zero, pure, Except.pure, hd, hilocked, holocked, hlocked]

/-! ### Constructors -/

/-- What the constructor makes depends on the widths of the nodes only, apart from the end that a
driving element drives. -/
def Constructor.Uniform (f : Constructor α) : Prop :=
  ∀ (net : Network α) (input output : Int) (gain : Gain α),
    f net input output gain = f net.bare input output gain >>= Element.orient net

/-- All constructors of a catalogue are uniform. -/
def Catalogue.Uniform (c : Catalogue α) : Prop :=
  ∀ l ∈ c, ∀ entry ∈ l.2, Constructor.Uniform entry.2

/-- What is specified is a kind, a name or a uniform constructor. -/
def ElementSpec.Uniform : ElementSpec α → Prop
  | .constructor f => Constructor.Uniform f
  | _ => True

omit [Scalar α] in
/-- What is computed from the parameters alone may come before. -/
private theorem Constructor.bind_eq {β : Type} {x : Except (Error α) β}
    {f g : β → Except (Error α) (Element α)} {net : Network α}
    (h : ∀ b, f b = g b >>= Element.orient net) : x >>= f = (x >>= g) >>= Element.orient net := by
  cases x with
  | error cause => rfl
  | ok b => exact h b

private theorem Library.uniform_plain (kind : ElementKind) :
    Constructor.Uniform (Library.plain (α := α) kind) :=
  fun net input output gain => Element.new_eq net kind input output gain

private theorem Library.uniform_positive (kind : ElementKind) (what : String) :
    Constructor.Uniform (Library.positive (α := α) kind what) :=
  fun net input output gain => Constructor.bind_eq fun _ => Constructor.bind_eq fun _ =>
    Element.new_eq net kind input output gain

private theorem Library.uniform_resistor : Constructor.Uniform (Library.resistor (α := α)) := by
  intro net input output resistance
  refine Constructor.bind_eq fun values => Constructor.bind_eq fun _ => ?_
  rw [node_bare]
  cases net.node input with
  | error cause => rfl
  | ok n => exact Constructor.bind_eq fun conductance => Element.new_eq net _ input output _

private theorem Library.uniform_conductor : Constructor.Uniform (Library.conductor (α := α)) := by
  intro net input output gain
  refine Constructor.bind_eq fun values => ?_
  split
  · exact Element.new_eq net _ input output _
  · exact Constructor.bind_eq fun _ => Element.new_eq net _ input output _
  · rfl

private theorem Library.uniform_convectionInterface :
    Constructor.Uniform (Library.convectionInterface (α := α)) := by
  intro net input output gain
  refine Constructor.bind_eq fun values => ?_
  split
  · exact Element.new_eq net _ input output _
  · rfl

/-- The constructors of the standard libraries are `Uniform`. -/
theorem Catalogue.uniform_standard : Catalogue.Uniform (α := α) .standard := by
  intro l hl entry hentry
  simp only [Catalogue.standard, List.mem_cons, List.not_mem_nil, or_false] at hl
  rcases hl with rfl | rfl | rfl
  · simp only [Library.circuit, List.mem_cons, List.not_mem_nil, or_false] at hentry
    rcases hentry with rfl | rfl | rfl
    · exact Library.uniform_resistor
    · exact Library.uniform_plain _
    · exact Library.uniform_plain _
  · simp only [Library.heat, List.mem_cons, List.not_mem_nil, or_false] at hentry
    rcases hentry with rfl | rfl | rfl | rfl
    · exact Library.uniform_conductor
    · exact Library.uniform_convectionInterface
    · exact Library.uniform_plain _
    · exact Library.uniform_plain _
  · simp only [Library.hydraulic, List.mem_cons, List.not_mem_nil, or_false] at hentry
    rcases hentry with rfl | rfl | rfl | rfl
    · exact Library.uniform_positive _ _
    · exact Library.uniform_positive _ _
    · exact Library.uniform_plain _
    · exact Library.uniform_plain _

/-- What is found in a `Uniform` catalogue is a `Uniform` constructor. -/
private theorem Catalogue.uniform_of_lookup {c : Catalogue α} (hc : c.Uniform) {name : String}
    {modelType : Option String} {f : Constructor α} (h : c.lookup name modelType = .ok f) :
    f.Uniform := by
  obtain ⟨l, hl, entry, hentry, -, rfl⟩ := Catalogue.mem_of_lookup h
  exact hc l hl entry hentry

/-- What a `Uniform` specification makes depends on the widths of the nodes only, apart from the end
that a driving element drives. -/
theorem ElementSpec.make_eq {spec : ElementSpec α} (hspec : spec.Uniform) {c : Catalogue α}
    (hc : c.Uniform) (modelType : Option String) (net : Network α) (input output : Int)
    (gain : Gain α) : spec.make c modelType net input output gain =
      spec.make c modelType net.bare input output gain >>= Element.orient net := by
  unfold make
  cases hf : spec.resolve c modelType with
  | error cause => rfl
  | ok f =>
    have huniform : f.Uniform ∨ ∃ cause, f = fun _ _ _ _ => .error cause := by
      cases spec with
      | kind k =>
        cases hf
        exact .inl fun net input output gain => Element.new_eq net k input output gain
      | constructor g =>
        cases hf
        exact .inl hspec
      | named name => exact .inl (Catalogue.uniform_of_lookup hc hf)
      | foreign description =>
        cases hf
        exact .inr ⟨_, rfl⟩
    rcases huniform with huniform | ⟨cause, rfl⟩
    · exact huniform net input output gain
    · rfl

end FluxBalance
