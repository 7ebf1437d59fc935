import FluxBalance.Study.Elements
import FluxBalance.Proofs.Network.Construction

/-!
# Regular constructors

A constructor is `Regular` if whatever it makes has been checked against the network by
`Element.new`. Those of the standard libraries are, and a catalogue of regular constructors makes
elements that fit the network.

## Main definitions and results

* `Constructor.Regular`: what is made has been checked against the network;
* `regular_standard`: all constructors of the standard libraries are regular.
-/

namespace FluxBalance

variable {α : Type} [Scalar α]

/-! ### The standard libraries -/

/-- What the constructor makes has been checked against the network. -/
def Constructor.Regular (f : Constructor α) : Prop :=
  ∀ (net : Network α) (input output : Int) (gain : Gain α) (e : Element α),
    f net input output gain = .ok e →
      ∃ kind i o given, Element.new net kind i o given = .ok e

/-- All constructors of a catalogue are regular. -/
def Catalogue.Regular (c : Catalogue α) : Prop :=
  ∀ l ∈ c, ∀ entry ∈ l.2, Constructor.Regular entry.2

/-- What is specified is a kind, a name or a regular constructor. -/
def ElementSpec.Regular : ElementSpec α → Prop
  | .constructor f => Constructor.Regular f
  | _ => True

private theorem Library.regular_plain (kind : ElementKind) :
    Constructor.Regular (Library.plain (α := α) kind) :=
  fun _ input output gain _ h => ⟨kind, input, output, gain, h⟩

private theorem Library.regular_positive (kind : ElementKind) (what : String) :
    Constructor.Regular (Library.positive (α := α) kind what) := by
  intro net input output gain e h
  obtain ⟨values, -, h⟩ := except_bind_eq_ok.mp h
  obtain ⟨_, -, h⟩ := except_bind_eq_ok.mp h
  exact ⟨kind, input, output, gain, h⟩

private theorem Library.regular_resistor : Constructor.Regular (Library.resistor (α := α)) := by
  intro net input output gain e h
  obtain ⟨values, -, h⟩ := except_bind_eq_ok.mp h
  obtain ⟨_, -, h⟩ := except_bind_eq_ok.mp h
  obtain ⟨n, -, h⟩ := except_bind_eq_ok.mp h
  obtain ⟨conductance, -, h⟩ := except_bind_eq_ok.mp h
  exact ⟨_, _, _, _, h⟩

private theorem Library.regular_conductor : Constructor.Regular (Library.conductor (α := α)) := by
  intro net input output gain e h
  unfold Library.conductor at h
  obtain ⟨values, -, h⟩ := except_bind_eq_ok.mp h
  dsimp only at h
  split at h
  · exact ⟨_, _, _, _, h⟩
  · obtain ⟨_, -, h⟩ := except_bind_eq_ok.mp h
    exact ⟨_, _, _, _, h⟩
  · cases h

private theorem Library.regular_convectionInterface :
    Constructor.Regular (Library.convectionInterface (α := α)) := by
  intro net input output gain e h
  obtain ⟨values, -, h⟩ := except_bind_eq_ok.mp h
  split at h
  · exact ⟨_, _, _, _, h⟩
  · cases h

/-- The standard libraries make their elements in the `Regular` way. -/
theorem Catalogue.regular_standard : Catalogue.Regular (α := α) .standard := by
  intro l hl entry hentry
  simp only [Catalogue.standard, List.mem_cons, List.not_mem_nil, or_false] at hl
  rcases hl with rfl | rfl | rfl
  · simp only [Library.circuit, List.mem_cons, List.not_mem_nil, or_false] at hentry
    rcases hentry with rfl | rfl | rfl
    · exact Library.regular_resistor
    · exact Library.regular_plain _
    · exact Library.regular_plain _
  · simp only [Library.heat, List.mem_cons, List.not_mem_nil, or_false] at hentry
    rcases hentry with rfl | rfl | rfl | rfl
    · exact Library.regular_conductor
    · exact Library.regular_convectionInterface
    · exact Library.regular_plain _
    · exact Library.regular_plain _
  · simp only [Library.hydraulic, List.mem_cons, List.not_mem_nil, or_false] at hentry
    rcases hentry with rfl | rfl | rfl | rfl
    · exact Library.regular_positive _ _
    · exact Library.regular_positive _ _
    · exact Library.regular_plain _
    · exact Library.regular_plain _

/-! ### Catalogues -/

/-- Registering a `Regular` constructor keeps a catalogue regular. -/
theorem Catalogue.regular_register {c c' : Catalogue α} (hc : c.Regular)
    {modelType name : String} {f : Constructor α} (hf : f.Regular)
    (h : c.register modelType name f = .ok c') : c'.Regular := by
  unfold Catalogue.register at h
  split at h
  · cases h
    intro l hl entry hentry
    rcases List.mem_append.mp hl with hl | hl
    · exact hc l hl entry hentry
    · rw [List.mem_singleton] at hl
      subst hl
      rw [List.mem_singleton] at hentry
      subst hentry
      exact hf
  · split at h
    · cases h
    · cases h
      intro l hl entry hentry
      obtain ⟨l₀, hl₀, rfl⟩ := List.mem_map.mp hl
      split at hentry
      · rcases List.mem_append.mp hentry with hentry | hentry
        · exact hc l₀ hl₀ entry hentry
        · rw [List.mem_singleton] at hentry
          subst hentry
          exact hf
      · exact hc l₀ hl₀ entry hentry

omit [Scalar α] in
/-- What is found under a name is the constructor of an entry of this name. -/
theorem Catalogue.mem_of_lookup {c : Catalogue α} {name : String} {modelType : Option String}
    {f : Constructor α} (h : c.lookup name modelType = .ok f) :
    ∃ l ∈ c, ∃ entry ∈ l.2, entry.1 = name ∧ entry.2 = f := by
  -- With and without a model type, what is found stands in one of the libraries.
  have hlibrary : ∀ l ∈ c, Catalogue.constructor? l.2 name = some f →
      ∃ l ∈ c, ∃ entry ∈ l.2, entry.1 = name ∧ entry.2 = f := by
    intro l hl hf
    obtain ⟨entry, hentry, rfl⟩ := Option.map_eq_some_iff.mp hf
    exact ⟨l, hl, entry, List.mem_of_find?_eq_some hentry,
      by simpa using List.find?_some hentry, rfl⟩
  unfold Catalogue.lookup at h
  split at h
  · rename_i t
    cases hfound : (c.library? t).bind fun l => Catalogue.constructor? l name with
    | none =>
      rw [hfound] at h
      cases h
    | some g =>
      rw [hfound] at h
      cases h
      obtain ⟨l, hl, hf⟩ := Option.bind_eq_some_iff.mp hfound
      obtain ⟨entry, hentry, rfl⟩ := Option.map_eq_some_iff.mp hl
      exact hlibrary entry (List.mem_of_find?_eq_some hentry) hf
  · cases hfound : c.everywhere name with
    | nil =>
      rw [hfound] at h
      cases h
    | cons g rest =>
      rw [hfound] at h
      cases rest with
      | cons _ _ => cases h
      | nil =>
        cases h
        have hmem : f ∈ c.everywhere name := by rw [hfound]; exact List.mem_singleton_self f
        obtain ⟨l, hl, hf⟩ := List.mem_filterMap.mp hmem
        exact hlibrary l hl hf

/-- What is found in a `Regular` catalogue is a `Regular` constructor. -/
private theorem Catalogue.regular_of_lookup {c : Catalogue α} (hc : c.Regular) {name : String}
    {modelType : Option String} {f : Constructor α} (h : c.lookup name modelType = .ok f) :
    f.Regular := by
  obtain ⟨l, hl, entry, hentry, -, rfl⟩ := Catalogue.mem_of_lookup h
  exact hc l hl entry hentry

/-- What a `Regular` specification makes fits the network. -/
theorem ElementSpec.made_of_make {spec : ElementSpec α} (hspec : spec.Regular)
    {c : Catalogue α} (hc : c.Regular) {modelType : Option String} {net : Network α}
    {input output : Int} {gain : Gain α} {e : Element α}
    (h : spec.make c modelType net input output gain = .ok e) : e.Made net := by
  obtain ⟨f, hf, hmake⟩ := except_bind_eq_ok.mp h
  have hregular {g : Constructor α} (hg : g.Regular) (hge : g net input output gain = .ok e) :
      e.Made net := by
    obtain ⟨kind, i, o, given, hnew⟩ := hg net input output gain e hge
    exact Element.made_of_new hnew
  cases spec with
  | kind k =>
    cases hf
    exact Element.made_of_new hmake
  | constructor g =>
    cases hf
    exact hregular hspec hmake
  | named name => exact hregular (Catalogue.regular_of_lookup hc hf) hmake
  | foreign description =>
    cases hf
    cases hmake

end FluxBalance
