import FluxBalance.Proofs.Study.Joining
import FluxBalance.Proofs.Study.Loops

/-!
# Runs of a study

A run prepares a study, configures it and then works on the network that is handed over: it adds
elements, evaluates, solves and writes to nodes, in any order and with any failures on the way, as
long as nobody stays inside a node. What holds in the network at every moment is said by `Sound`:
elements and nodes know each other, driving elements have locked nodes of their own which were no
boundary conditions when the study was configured, and every potential is the column that it has
been made as. Because of this no check of a shape, of a position or of the numbers of equations and
unknowns ever fails while the network is solved.

## Main definitions and results

* `Preparation`: what is done to a study before it is configured;
* `Evolves`, `evolves_after`: how every move may change a network;
* `Sound`, `sound_of_run`: what holds at every moment of every run.
-/

namespace FluxBalance

open FluxBalance.Computation Network

variable {α : Type} [Scalar α]

/-! ### Preparing a study -/

/-- What is done to a study before it is configured. -/
inductive Preparation (α : Type) where
  | addNodes (count components : Int)
  | configureNode (index : Int) (potential : Option (DenseMatrix α)) (isLocked : Option Bool)
    (metadata : Option (List (String × Json)))
  | groundNode (index : Int)

namespace Preparation

/-- The study that the preparation makes of a study, if it succeeds. -/
def attempt (s : Study α) : Preparation α → Except (Error α) (Study α)
  | addNodes count components => do return (← s.addNodes count components).2
  | configureNode index potential isLocked metadata =>
    s.configureNode index potential isLocked metadata
  | groundNode index => s.groundNode index

/-- The study after the preparation; a failure leaves it as it is. -/
def after (s : Study α) (p : Preparation α) : Study α :=
  match p.attempt s with
  | .ok s' => s'
  | .error _ => s

/-- The numbers of components of the nodes that the preparation adds. -/
def heights : Preparation α → List Nat
  | addNodes count components =>
    if components < 1 then [] else List.replicate count.toNat components.toNat
  | _ => []

end Preparation

namespace Network

variable {a b : Network α}

omit [Scalar α] in
/-- The numbers of `components` of the nodes. -/
def widths (net : Network α) : List Nat := net.nodes.toList.map Node.components

omit [Scalar α] in
private theorem getElem?_widths (net : Network α) (i : Nat) : net.widths[i]? = net.width? i := by
  rw [widths, List.getElem?_map, Array.getElem?_toList, width?]

omit [Scalar α] in
/-- Networks whose nodes have the same widths have the same `widths`. -/
private theorem widths_eq (h : ∀ i, b.width? i = a.width? i) : b.widths = a.widths :=
  List.ext_getElem? fun i => by rw [getElem?_widths, getElem?_widths, h]

end Network

/-- A preparation that succeeds leads to a study that is `Reachable`. -/
private theorem Study.reachable_attempt {s s' : Study α} {p : Preparation α} (hs : s.Reachable)
    (h : p.attempt s = .ok s') : s'.Reachable := by
  cases p with
  | addNodes count components =>
    obtain ⟨r, hr, h⟩ := except_bind_eq_ok.mp h
    cases h
    exact .addNodes hs hr
  | configureNode index potential isLocked metadata => exact .configureNode hs h
  | groundNode index => exact .groundNode hs h

/-- A change of a node that keeps its `shape` keeps all `widths`. -/
private theorem Study.widths_changeNode {s s' : Study α} {net : Network α} (hs : s.Reachable)
    (hnet : s.network? = some net) {index : Int} {step : Node α → Except (Error α) (Node α)}
    (h : s.changeNode index step = .ok s')
    (hshape : ∀ n n', n.potential.cols = 1 → step n = .ok n' →
      n'.potential.shape = n.potential.shape) :
    ∃ net', s'.network? = some net' ∧ net'.widths = net.widths := by
  obtain ⟨net₀, i, n, n', hnet₀, hn, hn', hs'⟩ := Study.changeNode_eq_ok h
  rw [hnet] at hnet₀
  cases hnet₀
  have hcols := ((Study.pristine_of_reachable hs hnet).node hn).1
  exact ⟨_, hs', widths_eq (width?_setNode hn (hshape n n' hcols hn'))⟩

/-- A preparation appends the nodes that it adds and keeps the `widths` of the others. -/
private theorem Preparation.widths_attempt {s s' : Study α} {p : Preparation α} {net : Network α}
    (hs : s.Reachable) (hnet : s.network? = some net) (h : p.attempt s = .ok s') :
    ∃ net', s'.network? = some net' ∧ net'.widths = net.widths ++ p.heights := by
  cases p with
  | addNodes count components =>
    obtain ⟨r, hr, h⟩ := except_bind_eq_ok.mp h
    cases h
    obtain ⟨net₀, hnet₀, ⟨hcount, hsame⟩ | ⟨hcomponents, hset⟩⟩ := Study.addNodes_eq_ok hr
    · refine ⟨net, hsame ▸ hnet, ?_⟩
      rw [heights, Int.toNat_of_nonpos hcount, List.replicate_zero, ite_self, List.append_nil]
    · rw [hnet] at hnet₀
      cases hnet₀
      refine ⟨_, hset, ?_⟩
      rw [heights, if_neg hcomponents, widths, widths, Array.toList_append, List.map_append,
        Array.toList_replicate, List.map_replicate]
      rfl
  | configureNode index potential isLocked metadata =>
    rw [show (configureNode index potential isLocked metadata).heights = [] from rfl,
      List.append_nil]
    exact Study.widths_changeNode hs hnet h fun n n' _ hn' => (Node.configure_eq_ok hn').1
  | groundNode index =>
    rw [show (groundNode index : Preparation α).heights = [] from rfl, List.append_nil]
    refine Study.widths_changeNode hs hnet h fun n n' hcols hn' => ?_
    obtain ⟨-, rfl⟩ := Node.ground_eq_ok_iff.mp hn'
    rw [DenseMatrix.shape, DenseMatrix.shape, hcols]
    rfl

/-- A preparation that fails would have added no nodes. -/
private theorem Preparation.heights_of_attempt_eq_error {s : Study α} {p : Preparation α}
    {net : Network α} (hnet : s.network? = some net) {cause : Error α}
    (h : p.attempt s = .error cause) : p.heights = [] := by
  cases p with
  | configureNode index potential isLocked metadata => rfl
  | groundNode index => rfl
  | addNodes count components =>
    by_cases hcomponents : components < 1
    · rw [heights, if_pos hcomponents]
    · have hadd : ∃ r, s.addNodes count components = .ok r := by
        unfold Study.addNodes
        rw [Study.live_eq_ok_iff.mpr hnet]
        by_cases hcount : count ≤ 0
        · exact ⟨_, if_pos hcount⟩
        · exact ⟨_, (if_neg hcount).trans (by rw [Node.new, if_neg hcomponents]; rfl)⟩
      obtain ⟨r, hr⟩ := hadd
      rw [attempt, hr] at h
      cases h

/-- After a preparation the study has the nodes that were there and those that have been added,
whether or not the preparation succeeds. -/
private theorem Preparation.widths_after {s : Study α} {net : Network α} (hs : s.Reachable)
    (hnet : s.network? = some net) (p : Preparation α) :
    (p.after s).Reachable ∧
      ∃ net', (p.after s).network? = some net' ∧ net'.widths = net.widths ++ p.heights := by
  unfold after
  cases h : p.attempt s with
  | ok s' => exact ⟨Study.reachable_attempt hs h, widths_attempt hs hnet h⟩
  | error cause =>
    refine ⟨hs, net, hnet, ?_⟩
    rw [heights_of_attempt_eq_error hnet h, List.append_nil]

/-- A study that is prepared has the nodes that have been added, in this order. -/
private theorem Study.widths_prepared {s : Study α} {net : Network α} (hs : s.Reachable)
    (hnet : s.network? = some net) (ps : List (Preparation α)) :
    (ps.foldl Preparation.after s).Reachable ∧ ∃ net',
      (ps.foldl Preparation.after s).network? = some net' ∧
      net'.widths = net.widths ++ ps.flatMap Preparation.heights := by
  induction ps generalizing s net with
  | nil => exact ⟨hs, net, hnet, by rw [List.flatMap_nil, List.append_nil]⟩
  | cons p ps ih =>
    obtain ⟨hs', net', hnet', hwidths⟩ := p.widths_after hs hnet
    rw [List.foldl_cons, List.flatMap_cons, ← List.append_assoc, ← hwidths]
    exact ih hs' hnet'

/-! ### What moves keep -/

namespace Network

variable {start net a b c : Network α} {e : Element α}

/-- How a network may change: its nodes keep their widths and their locks, and new driving elements
drive nodes that were not locked. -/
structure Evolves (a b : Network α) : Prop where
  width : ∀ i, b.width? i = a.width? i
  locked : ∀ {i : Nat}, a.locked i = true → b.locked i = true
  driven : ∀ e ∈ b.drivers, e ∈ a.drivers ∨ a.locked e.driven = false

omit [Scalar α] in
theorem Evolves.refl (a : Network α) : a.Evolves a := ⟨fun _ => rfl, id, fun _ => .inl⟩

omit [Scalar α] in
theorem Evolves.trans (hab : a.Evolves b) (hbc : b.Evolves c) : a.Evolves c where
  width i := (hbc.width i).trans (hab.width i)
  locked hi := hbc.locked (hab.locked hi)
  driven e he := by
    rcases hbc.driven e he with he | hunlocked
    · exact hab.driven e he
    · -- What is not locked later on has not been locked before.
      exact .inr (Bool.eq_false_iff.mpr fun hi => Bool.eq_false_iff.mp hunlocked (hab.locked hi))

/-- A network `Evolves` into every network of the same `frame`. -/
private theorem evolves_of_frame_eq (h : a.frame = b.frame) : a.Evolves b where
  width i := (width?_of_frame_eq h i).symm
  locked hi := (locked_of_frame_eq h _).symm.trans hi
  driven _ he := .inl (drivers_of_frame_eq h ▸ he)

omit [Scalar α] in
/-- A node of the same `shape` that is not unlocked may take the place of another one. -/
private theorem evolves_setNode {i : Nat} {n n' : Node α} (hn : a.nodes[i]? = some n)
    (hshape : n'.potential.shape = n.potential.shape)
    (hlocked : n.isLocked = true → n'.isLocked = true) : a.Evolves (a.setNode i n') where
  width := width?_setNode hn hshape
  locked {j} hj := by
    rw [locked_setNode (Array.getElem?_eq_some_iff.mp hn).1]
    split
    · rename_i hij
      subst hij
      exact hlocked ((locked_of_getElem? hn).symm.trans hj)
    · exact hj
  driven _ he := .inl he

/-- A new element that drives finds the node that it drives unlocked. -/
private theorem Extends.evolves (h : Extends e a b) (hmade : e.Made a) : a.Evolves b where
  width := h.width
  locked {i} hi := by rw [h.locked, hi, Bool.true_or]
  driven f hf := by
    refine ((mem_drivers_of_extends h).mp hf).imp_right ?_
    rintro ⟨rfl, hd⟩
    exact locked_of_locks hmade (Bool.and_eq_true_iff.mpr ⟨hd, decide_eq_true rfl⟩)

/-- **What every move keeps**, whether it succeeds or fails. -/
theorem evolves_after (hwf : a.WellFormed) (hord : a.Orderly) {m : Move α} (hm : m.Regular)
    (halone : ¬m.Enters) : a.Evolves (m.after a) := by
  -- Most moves change a single node, and none of these unlocks it or changes its width.
  have hchange : ∀ {index step}, m.ChangesNode index step → a.Evolves (m.after a) := by
    intro index step hstep
    rw [hstep.after_eq]
    cases h : changeNode index step a with
    | error cause net =>
      obtain rfl := changeNode_eq_error h
      exact .refl _
    | ok u net =>
      obtain ⟨i, n, n', -, hn, hn', rfl⟩ := changeNode_eq_ok_iff.mp h
      obtain ⟨hshape, -, hlocked, -⟩ := hstep.keeps (hwf.column hn) hn'
      exact evolves_setNode hn hshape hlocked
  cases m with
  | addElement spec c modelType input output gain =>
    rw [Move.after]
    rcases after_addElement hm.1 hm.2 modelType input output gain a with h | ⟨e, hmade, h⟩
    · rw [h]
      exact .refl a
    · obtain ⟨b, hadd, hextends⟩ := exists_addElement hwf hord.free hmade
      rw [h, hadd]
      exact hextends.evolves hmade
  | evaluate i x => exact evolves_of_frame_eq (frame_balance hwf i x).symm
  | solve margin limit indexLimit =>
    exact evolves_of_frame_eq (frame_solve hwf margin limit indexLimit).symm
  | setPotential index value => exact hchange (.setPotential index value)
  | setComponent index component value => exact hchange (.setComponent index component value)
  | lock index => exact hchange (.lock index)
  | ground index => exact hchange (.ground index)
  | enter guard index => exact absurd trivial halone
  | leave guard index =>
    rw [Move.after]
    cases hn : a.nodes[index]? with
    | none => rw [modify_of_none hn]; exact .refl a
    | some n => rw [modify_eq_setNode hn]; exact evolves_setNode hn rfl id

/-- **What any number of moves keeps.** -/
theorem evolves_foldl (ha : Reachable (fun m => ¬m.Enters) a) {ms : List (Move α)}
    (hms : ∀ m ∈ ms, m.Regular ∧ ¬m.Enters) : a.Evolves (ms.foldl Move.after a) := by
  induction ms generalizing a with
  | nil => exact .refl a
  | cons m ms ih =>
    obtain ⟨⟨hregular, halone⟩, hms⟩ := List.forall_mem_cons.mp hms
    have hstep :=
      evolves_after (wellFormed_of_reachable ha) (orderly_of_reachable ha) hregular halone
    exact hstep.trans (ih (.moved ha hregular halone) hms)

/-! ### Networks of runs -/

omit [Scalar α] in
private theorem pairwise_registeredAt (net : Network α) (i : Nat) :
    (net.registeredAt i).Pairwise (· < ·) := by
  have hpositions : (net.elements.toList.zipIdx.map Prod.snd).Pairwise (· < ·) := by
    rw [List.zipIdx_map_snd]
    exact List.pairwise_lt_range'
  exact hpositions.sublist (List.filter_sublist.map _)

omit [Scalar α] in
private theorem mem_registeredAt {net : Network α} {i k : Nat} :
    k ∈ net.registeredAt i ↔ ∃ e, net.elements[k]? = some e ∧ i ∈ e.endpoints := by
  simp only [registeredAt, List.mem_map, List.mem_filter, decide_eq_true_eq, Prod.exists,
    List.mem_zipIdx_iff_getElem?, Array.getElem?_toList]
  constructor
  · rintro ⟨e, l, h, rfl⟩
    exact ⟨e, h⟩
  · rintro ⟨e, h⟩
    exact ⟨e, k, h, rfl⟩

/-- What holds at every moment in a network that has come about from the network `start`, which a
study has handed over. -/
structure Sound (start net : Network α) : Prop where
  /-- An element joins two different nodes of one width by a gain of the shape that its
  kind needs. -/
  fits : ∀ {k : Nat} {e : Element α}, net.elements[k]? = some e → ∃ w, e.Fits net w
  /-- No node lists an element twice or out of order. -/
  ascending : ∀ {i : Nat} {n : Node α}, net.nodes[i]? = some n → n.elements.Pairwise (· < ·)
  /-- A node lists exactly the elements that enter its balance. -/
  registered : ∀ {i : Nat} {n : Node α}, net.nodes[i]? = some n →
    ∀ k, k ∈ n.elements ↔ ∃ e, net.elements[k]? = some e ∧ i ∈ e.endpoints
  /-- The node that an element drives is locked. -/
  locked : ∀ e ∈ net.drivers, net.locked e.driven = true
  /-- No two elements drive one node. -/
  driven_inj : ∀ {k l : Nat} {e f : Element α}, net.elements[k]? = some e →
    net.elements[l]? = some f → e.kind.drives = true → f.kind.drives = true →
    e.driven = f.driven → k = l
  /-- A node that is driven was not locked when the study was configured. -/
  unlocked_start : ∀ e ∈ net.drivers, start.locked e.driven = false
  /-- Every potential is a column. -/
  column : ∀ {i : Nat} {n : Node α}, net.nodes[i]? = some n → n.potential.cols = 1
  /-- Every potential has the height that it was made with. -/
  widths : net.widths = start.widths

omit [Scalar α] in
/-- A `WellFormed` and `Orderly` network that has evolved from one without elements is `Sound`. -/
private theorem sound_of_evolves (hwf : net.WellFormed) (hord : net.Orderly)
    (hstart : start.elements = #[]) (h : start.Evolves net) : Sound start net where
  fits he := hwf.fits he
  ascending {i n} hn := by
    rw [hwf.registered hn]
    exact pairwise_registeredAt net i
  registered hn k := by
    rw [hwf.registered hn]
    exact mem_registeredAt
  locked e he := by
    obtain ⟨⟨k, hk⟩, hd⟩ := mem_drivers.mp he
    have hn := Array.getElem?_eq_getElem (driven_lt_size hwf he)
    exact (locked_of_getElem? hn).trans (hord.locked hk hd hn)
  driven_inj he hf := hord.driven_inj he hf
  unlocked_start e he := by
    refine (h.driven e he).resolve_left fun hmem => ?_
    rw [drivers, hstart] at hmem
    cases hmem
  column hn := hwf.column hn
  widths := widths_eq h.width

end Network

/-! ### Errors that do not occur -/

/-- The error tells of shapes, positions or numbers that do not fit: of a matrix operation, of the
potential of a node, of a node that does not exist, or of the equations of a system. It may have
occurred during the evaluation of an equation. -/
def Error.Structural : Error α → Prop
  | .matrix _ | .nodeWidth _ | .potentialShape .. | .missingEndpoint .. | .unequalCounts .. => True
  | .evaluation _ cause => cause.Structural
  | _ => False

/-- What solving is refused for is not `Structural`. -/
private theorem Network.Refusal.not_structural {net : Network α} {cause : Error α}
    (h : net.Refusal cause) : ¬cause.Structural := by
  cases h with
  | noNodes h => exact id
  | indexOverflow cause => exact id
  | margin => exact id
  | iterate h => cases h <;> exact id
  | loop h => cases h; exact id

/-! ### Runs -/

/-- **Every run keeps its network sound.** However a study is prepared, it can be configured, which
leaves a study that refuses everything. However the network that is handed over is worked on while
nobody stays inside a node, it is sound, its nodes are those that were added and have the numbers of
components that they were added with, and no error with which solving it fails tells of shapes,
positions or numbers that do not fit. -/
theorem sound_of_run (modelType : Option String) (ps : List (Preparation α))
    {ms : List (Move α)} (hms : ∀ m ∈ ms, m.Regular ∧ ¬m.Enters) :
    ∃ start rest,
      (ps.foldl Preparation.after (.new modelType)).configure = .ok (start, rest) ∧
      (rest.configure = .error .studyConfigured ∧
        ∀ p, Preparation.attempt rest p = .error .studyConfigured) ∧
      Sound start (ms.foldl Move.after start) ∧
      (ms.foldl Move.after start).widths = ps.flatMap Preparation.heights ∧
      ∀ {margin : α} {limit : Int} {indexLimit : Nat} {cause : Error α} {after : Network α},
        solve margin limit indexLimit (ms.foldl Move.after start) = .error cause after →
          ¬cause.Structural := by
  have hnew : (Study.new modelType).network? = some (.empty : Network α) := rfl
  obtain ⟨hprepared, start, hstart, hwidths⟩ := Study.widths_prepared (.new modelType) hnew ps
  have hconfigure : (ps.foldl Preparation.after (.new modelType)).configure = .ok (start, _) :=
    except_bind_eq_ok.mpr ⟨start, Study.live_eq_ok_iff.mpr hstart, rfl⟩
  have hreachable : Reachable (fun m => ¬m.Enters) start := .configured hprepared hconfigure
  have hnet := hreachable.foldl hms
  have hwf := wellFormed_of_reachable hnet
  have hord := orderly_of_reachable hnet
  have hsound : Sound start (ms.foldl Move.after start) := sound_of_evolves hwf hord
    (pristine_of_configure hprepared hconfigure).elements (evolves_foldl hreachable hms)
  refine ⟨start, _, hconfigure, ⟨rfl, fun p => by cases p <;> rfl⟩, hsound,
    hsound.widths.trans hwidths, fun h => ?_⟩
  have hcalm : (ms.foldl Move.after start).Calm := ⟨hwf, hord.free, resolving_of_reachable hnet⟩
  exact (refusal_of_solve hcalm h).not_structural

/-- Moves of which some fail: both nodes of the second element are locked by then, the third one
leads to a node that does not exist, and one iterate is not enough. -/
def mishaps : List (Move Rat) :=
  [.addElement (.kind .potentialDrive) [] none 0 1 (.number 10),
    .addElement (.kind .potentialDrive) [] none 1 0 (.number 1),
    .addElement (.kind .conductive) [] none 1 5 (.number 1),
    .addElement (.kind .conductive) [] none 1 2 (.number 1),
    .solve (mkRat 1 10000) 1 ComponentIndex.usualLimit]

/-- The network is `Sound` after the moves of `mishaps`, some of which fail. -/
theorem sound_of_mishaps : ∃ start,
    Sound start (mishaps.foldl Move.after start) ∧
    (mishaps.foldl Move.after start).widths = [1, 1, 1] := by
  have hregular : Catalogue.Regular ([] : Catalogue Rat) := by simp [Catalogue.Regular]
  have hms : ∀ m ∈ mishaps, m.Regular ∧ ¬m.Enters := by
    intro m hm
    simp only [mishaps, List.mem_cons, List.not_mem_nil, or_false] at hm
    rcases hm with rfl | rfl | rfl | rfl | rfl
    · exact ⟨⟨trivial, hregular⟩, id⟩
    · exact ⟨⟨trivial, hregular⟩, id⟩
    · exact ⟨⟨trivial, hregular⟩, id⟩
    · exact ⟨⟨trivial, hregular⟩, id⟩
    · exact ⟨trivial, id⟩
  obtain ⟨start, rest, -, -, hsound, hwidths, -⟩ :=
    sound_of_run none [.addNodes 3 1, .addNodes 2 0, .groundNode 0, .groundNode 9] hms
  exact ⟨start, hsound, hwidths⟩

end FluxBalance
