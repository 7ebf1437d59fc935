import FluxBalance.CommandLine.Run
import FluxBalance.Proofs.Model.Building
import FluxBalance.Proofs.Newton.Step
import FluxBalance.Proofs.Study.Loops

/-!
# How a run of the program ends

The stages of a run fail in ways of their own: a file is not there, a document is not valid, an
element cannot be made, an iteration does not converge. All of these are reported by the exit code,
since what is built from a document has come about by the operations of studies, and solving such a
network ends without a fault. What is not reported are paths that cannot be those of files, and
files that do not hold text.

## Main definitions and results

* `Ends`: how a run ends and what it leaves on the disk, as `perform` does with the arguments
  understood;
* `reachable_of_build`, `calm_of_build`: the network of a model is `Reachable`, and nobody is inside
  its nodes;
* `ends_of_ofArguments`: every run `Ends`: with code zero exactly if the model is `Solved`, with
  code one if a failure is reported, and with a fault if the request `LetsOut` one.
-/

namespace FluxBalance

open FluxBalance.Computation

/-! ### Models that are built -/

namespace Model

/-- Configuring nodes one after the other keeps a study `Reachable`. -/
private theorem reachable_configureAll :
    ∀ {cs : List (Nat × NodeConfiguration)} {s s' : Study Float},
    s.Reachable → configureAll s cs = .ok s' → s'.Reachable
  | [], s, s', hs, h => by
    cases h
    exact hs
  | (i, c) :: cs, s, s', hs, h => by
    obtain ⟨s₁, hs₁, h⟩ := except_bind_eq_ok.mp h
    exact reachable_configureAll (hs.configureNode hs₁) h

/-- Adding elements one after the other keeps a network `Reachable`. -/
private theorem reachable_addAll {modelType : String} {allowed : Move Float → Prop}
    (hallowed : ∀ spec c t i o g, allowed (.addElement spec c t i o g)) :
    ∀ {es : List ElementDescription} {net net' : Network Float}, net.Reachable allowed →
      addAll modelType es net = .ok () net' → net'.Reachable allowed
  | [], net, net', hnet, h => by
    obtain ⟨-, rfl⟩ := pure_eq_ok.mp h
    exact hnet
  | e :: es, net, net', hnet, h => by
    obtain ⟨k, net₁, hadd, h⟩ := bind_eq_ok.mp h
    have hmoved := hnet.moved (m := .addElement (.named e.elementType) .standard (some modelType)
      e.input e.output e.toGain) ⟨trivial, Catalogue.regular_standard⟩ (hallowed ..)
    rw [Move.after, hadd] at hmoved
    exact reachable_addAll hallowed hmoved h

/-- **The network of a model comes about by the operations of studies**; nobody `Enters` a node. -/
theorem reachable_of_build {m : Model} {net : Network Float} (h : m.build = .ok net) :
    net.Reachable fun move => ¬move.Enters := by
  obtain ⟨s, hs, h⟩ := except_bind_eq_ok.mp h
  obtain ⟨⟨positions, s₀⟩, hs₀, hs⟩ := except_bind_eq_ok.mp hs
  obtain ⟨⟨net₀, handed⟩, hconfigure, h⟩ := except_bind_eq_ok.mp h
  have hnodes := reachable_configureAll ((Study.Reachable.new _).addNodes hs₀) hs
  dsimp only at h
  split at h
  · rename_i u net₁ hadd
    cases h
    exact reachable_addAll (fun _ _ _ _ _ _ => id) (.configured hnodes hconfigure) hadd
  · cases h

/-- The network of a model is `Calm`: well-formed, and nobody is inside a node. -/
private theorem calm_of_build {m : Model} {net : Network Float} (h : m.build = .ok net) :
    net.Calm where
  wellFormed := wellFormed_of_reachable (reachable_of_build h)
  free := (orderly_of_reachable (reachable_of_build h)).free
  unmarked := Network.resolving_of_reachable (reachable_of_build h)

/-! ### Faults -/

/-- A model that is read from a text is read from a document. -/
private theorem exists_ofJson_of_ofText {text : String} {m : Model} (h : ofText text = .ok m) :
    ∃ j, ofJson j = .ok m := by
  unfold ofText at h
  split at h
  · exact ⟨_, h⟩
  · cases h

theorem errsBy_ofText (text : String) :
    ErrsBy (fun cause => cause.isFault = false) (ofText text) := by
  intro cause h
  unfold ofText at h
  split at h
  · unfold ofJson finish at h
    split at h <;> cases h
    rfl
  · cases h
    rfl

/-- Building and solving what a document describes ends without a fault. -/
private theorem errsBy_run {text : String} {m : Model} (hm : ofText text = .ok m) (margin : Float)
    (limit : Int) : ErrsBy (fun cause => cause.isFault = false) (m.run margin limit) := by
  obtain ⟨j, hj⟩ := exists_ofJson_of_ofText hm
  obtain ⟨⟨s, net, handed, -, -, hbuild⟩, -⟩ := build_of_ofJson hj
  refine .bind_of_ok (fun cause h => ?_) fun net hnet cause h => ?_
  · cases (hbuild cause h).1 <;> rfl
  · split at h
    · cases h
    · rename_i cause' after hsolve
      cases h
      cases Network.refusal_of_solve (calm_of_build hnet) hsolve with
      | noNodes _ => rfl
      | indexOverflow _ => rfl
      | margin => rfl
      | iterate hiterate =>
        cases hiterate with
        | divisionByZero x hx =>
          rw [Newton.ProperStep.divisor_ne_zero] at hx
          cases hx
        | _ => rfl
      | loop hloop =>
        cases hloop
        rfl

end Model

namespace CommandLine

/-! ### Solutions of files -/

/-- The model in a file is read, validated, built and solved, and the document of its solution has
the given text. -/
def Solves (bytes : ByteArray) (margin : Float) (limit : Int) (text : String) : Prop :=
  ∃ source m net sol after, String.fromUTF8? bytes = some source ∧ Model.ofText source = .ok m ∧
    m.build = .ok net ∧ Network.solve margin limit ComponentIndex.usualLimit net = .ok sol after ∧
    text = sol.toJson.pretty

variable {bytes : ByteArray} {margin : Float} {limit : Int} {text : String}

/-- A model runs to a solution exactly if it can be built and solved. -/
private theorem run_eq_ok_iff {m : Model} {sol : Solution Float} : m.run margin limit = .ok sol ↔
    ∃ net after, m.build = .ok net ∧
      Network.solve margin limit ComponentIndex.usualLimit net = .ok sol after := by
  unfold Model.run
  rw [except_bind_eq_ok]
  constructor
  · rintro ⟨net, hnet, h⟩
    split at h
    · rename_i hsolve
      cases h
      exact ⟨net, _, hnet, hsolve⟩
    · cases h
  · rintro ⟨net, after, hnet, hsolve⟩
    refine ⟨net, hnet, ?_⟩
    rw [hsolve]
    rfl

/-- Decoding by `decodeText` succeeds exactly on bytes that encode a text. -/
private theorem decodeText_eq_ok_iff {source : String} :
    decodeText bytes = .ok source ↔ String.fromUTF8? bytes = some source := by
  unfold decodeText
  cases String.fromUTF8? bytes <;> simp

/-- The run behind `solutionText` succeeds exactly if the bytes hold a model that `Solves`. -/
private theorem solutionText_eq_ok_iff :
    solutionText bytes margin limit = .ok text ↔ Solves bytes margin limit text := by
  simp only [solutionText, except_bind_eq_ok, decodeText_eq_ok_iff, run_eq_ok_iff]
  constructor
  · rintro ⟨source, hsource, m, hm, sol, ⟨net, after, hnet, hsolve⟩, h⟩
    cases h
    exact ⟨source, m, net, sol, after, hsource, hm, hnet, hsolve, rfl⟩
  · rintro ⟨source, m, net, sol, after, hsource, hm, hnet, hsolve, rfl⟩
    exact ⟨source, hsource, m, hm, sol, ⟨net, after, hnet, hsolve⟩, rfl⟩

/-- **A file whose model is not solved is reported as such, unless it does not hold text.** -/
theorem solutionText_eq_fault_iff {cause : Fault} :
    solutionText bytes margin limit = .error (.fault cause) ↔
      String.fromUTF8? bytes = none ∧ cause = .badEncoding := by
  unfold solutionText decodeText
  cases hsource : String.fromUTF8? bytes with
  | none =>
    simp only [true_and]
    constructor
    · intro h
      cases h
      rfl
    · rintro rfl
      rfl
  | some source =>
    refine iff_of_false (fun h => ?_) nofun
    have herrs : ErrsBy (fun cause => cause.isFault = false) (do
        let m ← Model.ofText source
        return (← m.run margin limit).toJson.pretty) :=
      .bind_of_ok (Model.errsBy_ofText source) fun m hm =>
        .bind (Model.errsBy_run hm margin limit) fun _ => .ok _
    cases herrs _ h

/-! ### Runs on a disk -/

/-- Where a path leads depends on the directories only. -/
private theorem follow_congr {d e : Disk} (h : e.directories = d.directories) :
    ∀ (place parts : List String), e.follow place parts = d.follow place parts
  | place, [] => rfl
  | place, part :: parts => by
    simp only [Disk.follow, h, follow_congr h]

/-- What was written is read. -/
private theorem read_write {d e : Disk} {p : Path} {text : String} (h : d.write p text = some e) :
    e.read p = some text.toUTF8 := by
  obtain ⟨place, hplace, hwrite⟩ := Option.bind_eq_some_iff.mp h
  have hkept : e.directories = d.directories ∧ e.current = d.current := by
    split at hwrite
    · cases hwrite
    · cases hwrite
      exact ⟨rfl, rfl⟩
  have hlocate : e.locate p = some place := by
    rw [Disk.locate, hkept.2, follow_congr hkept.1]
    exact hplace
  rw [Disk.read, hlocate, Option.bind_some]
  exact Disk.contents?_write h hplace

/-- What follows goes on with the value and the state that have been reached. -/
private theorem stateM_run_bind {σ β γ : Type} (x : StateM σ β) (f : β → StateM σ γ) (s : σ) :
    (x >>= f).run s = (f (x.run s).1).run (x.run s).2 := rfl

private theorem run_read (p : Path) (d : Disk) : (Disk.access.read p).run d = (d.read p, d) := rfl

/-- On a `Disk` writing a file either succeeds or leaves it alone. -/
private theorem run_write (p : Path) (text : String) (d : Disk) :
    (Disk.access.write p text).run d =
      match d.write p text with
      | some after => (true, after)
      | none => (false, d) := by
  unfold Disk.access
  simp only [StateT.run_bind, StateT.run_get, pure_bind]
  cases d.write p text <;> rfl

/-- A run on a disk, stage by stage. -/
private theorem solveFile_access (model output : Path) (margin : Float) (limit : Int) (d : Disk) :
    (solveFile Disk.access model output margin limit).run d =
      if model.isUsable = false then (.fault .badValue, d)
      else
        match d.read model with
        | none => (.exit 1, d)
        | some bytes =>
          match solutionText bytes margin limit with
          | .error (.fault cause) => (.fault cause, d)
          | .error _ => (.exit 1, d)
          | .ok text =>
            if output.isUsable = false then (.fault .badValue, d)
            else
              match d.write output text with
              | none => (.exit 1, d)
              | some after => (.exit 0, after) := by
  unfold solveFile
  -- Each stage either ends the run or hands its result on to the next.
  cases model.isUsable with
  | false => rfl
  | true =>
    simp only [Bool.not_true, Bool.false_eq_true, if_false, Bool.true_eq_false, stateM_run_bind,
      run_read]
    cases d.read model with
    | none => rfl
    | some bytes =>
      dsimp only
      cases solutionText bytes margin limit with
      | error cause => cases cause <;> rfl
      | ok text =>
        dsimp only
        cases output.isUsable with
        | false => rfl
        | true =>
          simp only [Bool.not_true, Bool.false_eq_true, if_false, Bool.true_eq_false,
            stateM_run_bind, run_write]
          cases d.write output text <;> rfl

namespace Request

/-- The model at a path is solved, with a solution document of the given text. -/
def Solved (r : Request) (d : Disk) (model : Path) (text : String) : Prop :=
  model.isUsable = true ∧ ∃ bytes, d.read model = some bytes ∧
    Solves bytes (r.margin.getD Newton.defaultMargin) (r.limit.getD 1000) text

/-- What a run does not report by its exit code. -/
inductive LetsOut (r : Request) (d : Disk) (model : Path) : Fault → Prop
  /-- No place for the solution is given, and there is none next to the model. -/
  | nameless : r.output = none → model.name? = none → LetsOut r d model .badValue
  /-- The path of the model cannot be that of a file. -/
  | modelPath {output : Path} : r.outputPath? model = some output → model.isUsable = false →
    LetsOut r d model .badValue
  /-- The file of the model does not hold text. -/
  | encoding {output : Path} {bytes : ByteArray} : r.outputPath? model = some output →
    model.isUsable = true → d.read model = some bytes → String.fromUTF8? bytes = none →
    LetsOut r d model .badEncoding
  /-- The model is solved, but the place of the solution cannot be that of a file. -/
  | outputPath {output : Path} {text : String} : r.outputPath? model = some output →
    r.Solved d model text → output.isUsable = false → LetsOut r d model .badValue

/-- How a run ends that has come as far as it can. -/
inductive Ending (r : Request) (d : Disk) (model : Path) : Outcome × Disk → Prop
  | letOut {cause : Fault} : r.LetsOut d model cause → Ending r d model (.fault cause, d)
  | unsolved : (∀ text, ¬r.Solved d model text) → Ending r d model (.exit 1, d)
  | unwritten {output : Path} {text : String} : r.outputPath? model = some output →
    r.Solved d model text → d.write output text = none → Ending r d model (.exit 1, d)
  | written {output : Path} {text : String} {after : Disk} : r.outputPath? model = some output →
    r.Solved d model text → output.isUsable = true → d.write output text = some after →
    Ending r d model (.exit 0, after)

variable {r : Request} {d : Disk} {model : Path}

private theorem exists_model {args : List String} (h : ofArguments args = .ok r) :
    ∃ model, r.model = some model := by
  obtain ⟨ws, -, h⟩ := except_bind_eq_ok.mp h
  obtain ⟨r', -, h⟩ := except_bind_eq_ok.mp h
  dsimp only at h
  split at h
  · cases h
  · rename_i hmodel
    cases h
    rw [Bool.or_eq_true, not_or, Option.isNone_iff_eq_none] at hmodel
    exact Option.ne_none_iff_exists'.mp hmodel.1

/-- There is no place for the solution only if none is given and the model has no name. -/
private theorem outputPath?_eq_none_iff :
    r.outputPath? model = none ↔ r.output = none ∧ model.name? = none := by
  rw [outputPath?, Option.or_eq_none_iff, Path.solution?, Option.map_eq_none_iff]

/-- What `perform` does on a `Disk` with the arguments understood. -/
private theorem perform_access (hmodel : r.model = some model) : (perform Disk.access r).run d =
    match r.outputPath? model with
    | none => (.fault .badValue, d)
    | some output => (solveFile Disk.access model output (r.margin.getD Newton.defaultMargin)
        (r.limit.getD 1000)).run d := by
  unfold perform
  rw [hmodel]
  dsimp only
  cases r.outputPath? model <;> rfl

/-- How `perform` ends is one of the cases of `Ending`. -/
private theorem ending_of_perform (hmodel : r.model = some model) :
    Ending r d model ((perform Disk.access r).run d) := by
  rw [perform_access hmodel]
  split
  · rename_i hnone
    obtain ⟨houtput, hname⟩ := outputPath?_eq_none_iff.mp hnone
    exact .letOut (.nameless houtput hname)
  rename_i output houtput
  rw [solveFile_access]
  split
  · rename_i hmodel
    exact .letOut (.modelPath houtput hmodel)
  rename_i husable
  rw [Bool.not_eq_false] at husable
  split
  · rename_i hread
    refine .unsolved fun text h => ?_
    obtain ⟨-, bytes, hbytes, -⟩ := h
    cases hread.symm.trans hbytes
  rename_i bytes hread
  -- From here on the model has been read, so solving it is a matter of its text alone.
  have hsolved {text : String} : r.Solved d model text ↔ solutionText bytes
      (r.margin.getD Newton.defaultMargin) (r.limit.getD 1000) = .ok text := by
    rw [solutionText_eq_ok_iff]
    constructor
    · rintro ⟨-, bytes', hbytes, h⟩
      cases hread.symm.trans hbytes
      exact h
    · exact fun h => ⟨husable, bytes, hread, h⟩
  split
  · rename_i cause hfault
    obtain ⟨hnone, rfl⟩ := solutionText_eq_fault_iff.mp hfault
    exact .letOut (.encoding houtput husable hread hnone)
  · rename_i cause _ herror
    refine .unsolved fun text h => ?_
    cases herror.symm.trans (hsolved.mp h)
  · rename_i text htext
    have htext := hsolved.mpr htext
    split
    · rename_i hunusable
      exact .letOut (.outputPath houtput htext hunusable)
    rename_i hplace
    rw [Bool.not_eq_false] at hplace
    split
    · rename_i hwrite
      exact .unwritten houtput htext hwrite
    · rename_i after hwrite
      exact .written houtput htext hplace hwrite

/-- If the model is `Solved` and its solution can be written, the run ends with code zero. -/
private theorem perform_of_solved (hmodel : r.model = some model) {output : Path} {text : String}
    {after : Disk} (houtput : r.outputPath? model = some output) (h : r.Solved d model text)
    (hplace : output.isUsable = true) (hwrite : d.write output text = some after) :
    (perform Disk.access r).run d = (.exit 0, after) := by
  obtain ⟨husable, bytes, hread, hsolves⟩ := h
  have htext := solutionText_eq_ok_iff.mpr hsolves
  simp [perform_access hmodel, houtput, solveFile_access, husable, hread, htext, hplace, hwrite]

/-- If the request `LetsOut` a fault, the run ends with it. -/
private theorem perform_of_letsOut (hmodel : r.model = some model) {cause : Fault}
    (h : r.LetsOut d model cause) : (perform Disk.access r).run d = (.fault cause, d) := by
  rw [perform_access hmodel]
  cases h with
  | nameless houtput hname => rw [outputPath?_eq_none_iff.mpr ⟨houtput, hname⟩]
  | modelPath houtput hunusable => simp [houtput, solveFile_access, hunusable]
  | encoding houtput husable hread hnone =>
    have hfault (margin : Float) (limit : Int) :
        solutionText _ margin limit = .error (.fault .badEncoding) :=
      solutionText_eq_fault_iff.mpr ⟨hnone, rfl⟩
    simp [houtput, solveFile_access, husable, hread, hfault]
  | outputPath houtput hsolved hunusable =>
    obtain ⟨husable, bytes, hread, hsolves⟩ := hsolved
    have htext := solutionText_eq_ok_iff.mpr hsolves
    simp [houtput, solveFile_access, husable, hread, htext, hunusable]

/-- How a run ends and what it leaves. -/
structure Ends (r : Request) (d : Disk) (model : Path) (outcome : Outcome) (after : Disk) :
    Prop where
  code : outcome = .exit 0 ∨ outcome = .exit 1 ∨ ∃ cause, outcome = .fault cause
  /-- The exit code is zero exactly if the model has been read, validated, built and solved and the
  document of its solution has been written. -/
  zero_iff : outcome = .exit 0 ↔ ∃ output text, r.outputPath? model = some output ∧
    r.Solved d model text ∧ output.isUsable = true ∧ d.write output text = some after ∧
    after.read output = some text.toUTF8
  /-- Otherwise all files are as they were. -/
  kept : outcome ≠ .exit 0 → after = d
  fault_iff (cause : Fault) : outcome = .fault cause ↔ r.LetsOut d model cause

/-- How `perform` ends, and what it leaves on the disk, is said by `Ends`. -/
private theorem ends_of_perform (hmodel : r.model = some model) {outcome : Outcome} {after : Disk}
    (h : (perform Disk.access r).run d = (outcome, after)) : r.Ends d model outcome after := by
  have hending : Ending r d model (outcome, after) := h ▸ ending_of_perform hmodel
  refine ⟨?code, ⟨fun hzero => ?written, ?zero⟩, fun hne => ?kept,
    fun cause => ⟨fun hfault => ?letsOut, fun hout => ?fault⟩⟩
  case code =>
    cases hending with
    | letOut _ => exact .inr (.inr ⟨_, rfl⟩)
    | unsolved _ => exact .inr (.inl rfl)
    | unwritten _ _ _ => exact .inr (.inl rfl)
    | written _ _ _ _ => exact .inl rfl
  case written =>
    cases hending with
    | written houtput hsolved hplace hwrite =>
      exact ⟨_, _, houtput, hsolved, hplace, hwrite, read_write hwrite⟩
    | _ => cases hzero
  case zero =>
    rintro ⟨output, text, houtput, hsolved, hplace, hwrite, -⟩
    rw [perform_of_solved hmodel houtput hsolved hplace hwrite] at h
    exact (congrArg Prod.fst h).symm
  case kept =>
    cases hending with
    | written _ _ _ _ => exact absurd rfl hne
    | _ => rfl
  case letsOut =>
    cases hending with
    | letOut hout =>
      cases hfault
      exact hout
    | _ => cases hfault
  case fault =>
    rw [perform_of_letsOut hmodel hout] at h
    exact (congrArg Prod.fst h).symm

end Request

/-- **How a run of the program ends.** If the arguments are understood, they name a model. The run
ends with code zero exactly if the model is read, validated, built and solved and the document of
its solution is written; if it does not, no file has changed. It ends with code one otherwise,
unless there is no place for the solution, a path cannot be that of a file or the file of the model
does not hold text, which the exit code does not report. -/
theorem ends_of_ofArguments {args : List String} {r : Request}
    (h : Request.ofArguments args = .ok r) (d : Disk) : ∃ model, r.model = some model ∧
      r.Ends d model ((run Disk.access args).run d).1 ((run Disk.access args).run d).2 := by
  obtain ⟨model, hmodel⟩ := Request.exists_model h
  have hrun : (run Disk.access args).run d = (perform Disk.access r).run d := by
    rw [run, h]
  rw [hrun]
  exact ⟨model, hmodel, Request.ends_of_perform hmodel rfl⟩

/-- A disk with a file that does not hold text: two of its bytes are none of any character. -/
def garbled : Disk where
  directories := [[]]
  files := [(["bad.json"], ⟨#[123, 255, 254, 125]⟩)]
  current := []

/-- A run on the file `garbled`, which holds no text, lets a fault out and leaves the disk alone. -/
theorem ends_garbled :
    ∃ r model, Request.ofArguments ["bad.json"] = .ok r ∧ r.model = some model ∧
      r.LetsOut garbled model .badEncoding ∧
      ((run Disk.access ["bad.json"]).run garbled).2 = garbled := by
  have hfault : ((run Disk.access ["bad.json"]).run garbled).1 = .fault .badEncoding := by
    decide +kernel
  obtain ⟨model, hmodel, hends⟩ :=
    ends_of_ofArguments (show Request.ofArguments ["bad.json"] = .ok _ from rfl) garbled
  refine ⟨_, model, rfl, hmodel, (hends.fault_iff _).mp hfault, hends.kept ?_⟩
  rw [hfault]
  nofun

/-- The exit code does not report that the file of the model does not hold text. -/
theorem exists_run_not_reported :
    (∃ r, Request.ofArguments ["bad.json"] = .ok r) ∧
    ((run Disk.access ["bad.json"]).run garbled).1 = .fault .badEncoding ∧
    ((run Disk.access ["bad.json"]).run garbled).1 ≠ .exit 0 ∧
    ((run Disk.access ["bad.json"]).run garbled).1 ≠ .exit 1 := by
  refine ⟨⟨_, rfl⟩, ?_, ?_, ?_⟩ <;> decide +kernel

end CommandLine

end FluxBalance
