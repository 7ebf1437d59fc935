import FluxBalance.Proofs.Library.Readings
import FluxBalance.Proofs.Study.Joining
import FluxBalance.Proofs.Study.Reachable

/-!
# What comes of adding an element

An element of the standard libraries, or of a kind, is meant to be added, or to be refused by one of
two errors: an end is missing, or the element cannot be made. As long as nobody is inside a node, an
element that has been made can be joined, so all that may go wrong is the making. There a fault gets
out where the constructor lets one out that it meets in the gain; in all other cases the element is
added or refused.

## Main definitions and results

* `added_or_refused_iff`: adding succeeds or is refused by an `Error.OfElement` exactly if the
  specification `LetsOut` no fault;
* `exists_add_not_refused`: between the nodes of `pair` a text for a gain lets one out.
-/

namespace FluxBalance

open FluxBalance.Computation Network

namespace Network

variable {α : Type} [Scalar α] {net : Network α}

/-- **An element is added or refused exactly if its gain lets no fault out.** What is added joins
the nodes that were asked for. If the element is refused, or if a fault is let out, nothing has
changed. -/
theorem added_or_refused_iff {allowed : Move α → Prop} (hnet : Reachable allowed net)
    (hfree : ∀ {i : Nat} {n : Node α}, net.nodes[i]? = some n → n.access = .free)
    {spec : ElementSpec α} (hspec : spec.BuiltIn) (modelType : Option String) (input output : Int)
    (gain : Gain α) :
    (((∃ e after, spec.add .standard modelType input output gain net =
          .ok net.elements.size after ∧
          (e.input : Int) = input ∧ (e.output : Int) = output ∧ Extends e net after) ∨
        ∃ cause, spec.add .standard modelType input output gain net = .error cause net ∧
          cause.OfElement) ↔
      ∀ fault, ¬spec.LetsOut modelType net input output gain fault) ∧
    ∀ fault, spec.LetsOut modelType net input output gain fault →
      spec.add .standard modelType input output gain net = .error (.fault fault) net := by
  have hfault : ∀ fault, spec.LetsOut modelType net input output gain fault →
      spec.add .standard modelType input output gain net = .error (.fault fault) net := by
    intro fault h
    exact bind_eq_error.mpr
      (.inl (look_eq_error_iff.mpr ⟨ElementSpec.make_eq_fault hspec h, rfl⟩))
  refine ⟨⟨?_, fun hnone => ?_⟩, hfault⟩
  · -- A fault is neither a success nor an error of elements.
    rintro (⟨e, after, hadd, -⟩ | ⟨cause, hadd, hcause⟩) fault h
    · rw [hfault fault h] at hadd
      cases hadd
    · rw [hfault fault h] at hadd
      cases hadd
      cases hcause
  · -- All that may fail is the making: whatever has been made can be joined.
    cases hmake : spec.make .standard modelType net input output gain with
    | error cause =>
      have hcause : cause.OfElement :=
        (ElementSpec.errsBy_make hspec cause hmake).ofElement_of_none hnone
      exact .inr ⟨cause, bind_eq_error.mpr (.inl (look_eq_error_iff.mpr ⟨hmake, rfl⟩)), hcause⟩
    | ok e =>
      have hregular : spec.Regular := by
        cases spec <;> trivial
      -- Only elements that fit the network are made.
      have hmade := ElementSpec.made_of_make hregular Catalogue.regular_standard hmake
      obtain ⟨after, hjoin, hextends⟩ :=
        exists_addElement (wellFormed_of_reachable hnet) hfree hmade
      obtain ⟨hinput, houtput⟩ := ElementSpec.ends_of_make hspec hmake
      refine .inl ⟨e, after, ?_, hinput, houtput, hextends⟩
      exact bind_eq_ok.mpr ⟨e, net, look_eq_ok_iff.mpr ⟨hmake, rfl⟩, hjoin⟩

/-- Two nodes. -/
def pair : Network Float where
  nodes := #[Node.zero 1, Node.zero 1]
  elements := #[]
  resolving := []

private theorem free_pair {i : Nat} {n : Node Float} (hn : pair.nodes[i]? = some n) :
    n.access = .free := by
  match i, hn with
  | 0, rfl => rfl
  | 1, rfl => rfl

/-- Configuring a study with two nodes hands over `pair`. -/
private theorem reachable_pair : Reachable (fun m => ¬m.Enters) pair := by
  have hnodes : (Study.new (α := Float) none).addNodes 2 1 = .ok ((0, 2), ⟨none, some pair⟩) := rfl
  exact .configured (.addNodes (.new none) hnodes) rfl

/-- The conductance of a pipe, given as a text with an exponent: the text is a positive number, but
one of its letters is no number. -/
private theorem letsOut_exponent : (ElementSpec.named "pipe").LetsOut (some "hydraulic") pair 0 1
    (.text "1e5") .badValue := by
  have hnumber : (Scalar.ofText? (α := Float) "1e5").map (Scalar.lt Zero.zero) = some true := by
    decide +kernel
  obtain ⟨x, hx, hpositive⟩ := Option.map_eq_some_iff.mp hnumber
  have hvalues : (Gain.text "1e5" : Gain Float).values = .ok [x] :=
    except_mapM_eq_ok.mpr (.cons (by rw [Gain.leafValue, hx]) .nil)
  have hrows : List.Forall₂ (fun g parts => Gain.row? g = some parts)
      (Gain.letters "1e5" : List (Gain Float)) [[.text "1"], [.text "e"], [.text "5"]] :=
    .cons rfl (.cons rfl (.cons rfl .nil))
  have hentries : (Gain.text "1e5" : Gain Float).Entries
      ([.text "1"] ++ .text "e" :: [.text "5"]) := .text (.rows hrows (by simp))
  obtain ⟨digit, hdigit⟩ : ∃ y, Scalar.ofText? (α := Float) "1" = some y :=
    Option.isSome_iff_exists.mp (by decide +kernel)
  have hread : (Gain.text "1" : Gain Float).entry = .ok digit := by rw [Gain.entry, hdigit]
  have hletter : (Gain.text "e" : Gain Float).Unreadable .badValue := .text (by decide +kernel)
  have hjoinable : pair.Joinable 0 1 := ⟨_, _, rfl, rfl, by decide, rfl⟩
  exact ⟨⟨_, rfl⟩, .inr ⟨⟨[x], hvalues, by simp, List.forall_mem_singleton.mpr hpositive⟩,
    hjoinable, _, _, _, hentries, List.forall_mem_singleton.mpr ⟨digit, hread⟩, hletter⟩⟩

/-- So adding such a pipe lets the fault out. -/
theorem add_exponent : (ElementSpec.named "pipe").add .standard (some "hydraulic") 0 1
    (.text "1e5") pair = .error (.fault .badValue) pair :=
  have hspec : (ElementSpec.named "pipe" : ElementSpec Float).BuiltIn := trivial
  (added_or_refused_iff reachable_pair free_pair hspec (some "hydraulic") 0 1 (.text "1e5")).2
    .badValue letsOut_exponent

/-- **Faults do get out**, where the gain is a text and nobody is inside a node. -/
theorem exists_add_not_refused :
    ¬ ∀ (net : Network Float) (spec : ElementSpec Float) (modelType : Option String)
      (input output : Int) (gain : Gain Float), Reachable (fun m => ¬m.Enters) net →
      (∀ {i : Nat} {n : Node Float}, net.nodes[i]? = some n → n.access = .free) → spec.BuiltIn →
      (∃ k after, spec.add .standard modelType input output gain net = .ok k after) ∨
        ∃ cause after, spec.add .standard modelType input output gain net = .error cause after ∧
          cause.OfElement := by
  intro hall
  have hfault : (error? ((ElementSpec.kind .conductive).add .standard none 0 1 (.text "abc")
      pair)).any Error.isFault = true := by decide +kernel
  have hspec : (ElementSpec.kind .conductive : ElementSpec Float).BuiltIn := trivial
  rcases hall pair _ none 0 1 (.text "abc") reachable_pair free_pair hspec with
    ⟨k, after, hadd⟩ | ⟨cause, after, hadd, hcause⟩
  · rw [hadd] at hfault
    cases hfault
  · rw [hadd] at hfault
    cases hcause <;> cases hfault

/-- Integers that are too large get out as faults of both readings. -/
example : ∀ name ∈ ["resistor", "voltage_source"],
    (match (ElementSpec.named name).add .standard (some "dc_circuit") 0 1
        (.list [.list [.oversized]]) pair with
      | .error (.fault fault) _ => decide (fault = .overflow)
      | _ => false) = true := by decide +kernel

end Network

end FluxBalance
