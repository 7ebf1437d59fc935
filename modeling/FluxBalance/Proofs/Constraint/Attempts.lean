import FluxBalance.Proofs.Constraint.Builder
import FluxBalance.Proofs.Equation.Evaluation
import FluxBalance.Proofs.Equation.Failures
import FluxBalance.Proofs.Newton.Points
import Mathlib.Data.Finset.Card

/-!
# What builders take, and what is made of them

A builder holds its seed and the equations that it has accepted since, in the order of the attempts.
It accepts an equation exactly if it can be read and there are at least as many unknowns as
equations then; otherwise it stays as it is. So whatever has been attempted, a system that is made
of a builder has a residual for each unknown, and no two residuals have the same name, as each name
begins with the position of its equation.

Its solution therefore never finds the numbers of equations and unknowns to differ. Nor does an
equation ever miss the value of an unknown: the iteration looks at its residuals at points that list
all unknowns, and the unknowns of the equations are among them.

## Main definitions and results

* `accepts`, `accepts_iff`: which equations a builder accepts;
* `Holds`, `BuiltFrom`: what a builder holds, and that a system has been made of it;
* `errsBy_solve_of_square`: a system with as many unknowns as equations fails without an
  `Error.Mismatch`;
* `accounts_of_new`: whatever is attempted, the builder `Accounts` for it.
-/

namespace FluxBalance

open FluxBalance.Computation Equation

variable {α : Type} [Evaluable α] {context : Context α} {texts : List String}
  {b b' : SystemBuilder α} {s s' : ConstrainedSystem α}

/-! ### Errors that are ruled out -/

/-- There are not as many equations as unknowns, or an unknown has no value where an equation is
evaluated. -/
inductive Error.Mismatch {α : Type} : Error α → Prop
  | unequalCounts (equations unknowns : Nat) : Mismatch (.unequalCounts equations unknowns)
  | missingValue (name text : String) : Mismatch (.domain (.missingValue name text))
  | evaluation {name : EquationName} {cause : Error α} : Mismatch cause →
    Mismatch (.evaluation name cause)

/-- With a value for each of its unknowns, an expression does not miss any. -/
private theorem Expression.errsBy_evaluate_of_values {e : Expression α} {values : String → Option α}
    (h : ∀ n ∈ e.vars, (values n).isSome) :
    ErrsBy (fun cause => ¬ cause.Mismatch) (e.evaluate values) := by
  have hfound : (e.vars.find? fun n => (values n).isNone) = none :=
    List.find?_eq_none.mpr fun n hn => by simpa [Option.isSome_iff_ne_none] using h n hn
  unfold Expression.evaluate
  rw [hfound]
  dsimp only
  split
  · exact .error nofun
  · exact .error nofun
  · split
    · exact .error nofun
    · split
      · exact .ok _
      · exact .error nofun

/-! ### Residuals -/

namespace ConstrainedSystem

/-- The name of a residual tells the position of its equation. -/
private theorem eq_of_label_eq {i j : Nat} {text text' : String}
    (h : "[" ++ toString i ++ "] " ++ text = "[" ++ toString j ++ "] " ++ text') : i = j := by
  have hdigits (k : Nat) (rest : List Char) :
      (Nat.toDigits 10 k ++ ']' :: rest).takeWhile Char.isDigit = Nat.toDigits 10 k := by
    have hall : ∀ c ∈ Nat.toDigits 10 k, c.isDigit = true := fun c hc =>
      Nat.isDigit_of_mem_toDigits (by decide) le_rfl hc
    rw [List.takeWhile_append_of_pos hall, List.takeWhile_cons_of_neg (by decide), List.append_nil]
  have hlists := congrArg String.toList h
  simp only [String.toList_append, Nat.toString_eq_ofList_toDigits, String.toList_ofList,
    List.append_assoc] at hlists
  have hrest := congrArg (List.takeWhile Char.isDigit) (List.append_cancel_left hlists)
  change (Nat.toDigits 10 i ++ ']' :: _).takeWhile _ = (Nat.toDigits 10 j ++ ']' :: _).takeWhile _
    at hrest
  rw [hdigits, hdigits] at hrest
  rw [← Nat.ofDigitChars_ten_toDigits (n := i), hrest, Nat.ofDigitChars_ten_toDigits]

/-- No two `residuals` have the same name, also where an equation is repeated. -/
private theorem nodup_names_residuals (es : List (Expression α)) :
    ((residuals es).map (·.name)).Nodup := by
  rw [List.nodup_iff_injective_getElem]
  intro i j hij
  simp only [residuals, List.getElem_map, List.getElem_mapIdx, EquationName.text.injEq] at hij
  exact Fin.ext (eq_of_label_eq hij)

/-- The residuals, where an unknown that is not listed counts as zero. -/
def paddedResiduals (es : List (Expression α)) : List (Newton.Residual String α Unit) :=
  es.mapIdx fun i e =>
    { name := .text ("[" ++ toString i ++ "] " ++ e.text)
      value := fun x => Newton.lift (e.evaluate fun n => some ((Context.lookup? x n).getD 0)) }

/-- Where all unknowns are listed, nothing counts as zero. -/
private theorem sameAt_paddedResiduals {keys : List String} {es : List (Expression α)}
    (hread : ∀ e ∈ es, Expression.ofText e.text context = .ok e)
    (hkeys : ∀ e ∈ es, e.vars ⊆ keys) :
    Newton.SameAt keys (residuals es) (paddedResiduals es) := by
  unfold Newton.SameAt residuals paddedResiduals
  rw [List.mapIdx_eq_zipIdx_map, List.mapIdx_eq_zipIdx_map, List.forall₂_map_left_iff,
    List.forall₂_map_right_iff, List.forall₂_same]
  rintro ⟨e, i⟩ hi
  have he : e ∈ es := List.fst_mem_of_mem_zipIdx hi
  refine ⟨rfl, fun x hx => congrArg Newton.lift ?_⟩
  refine Expression.evaluate_congr (hread e he) fun n hn => ?_
  cases hvalue : Context.lookup? x n with
  | some v => exact hvalue
  | none =>
    rw [Context.lookup?_eq_none_iff, hx] at hvalue
    exact absurd (hkeys e he hn) hvalue

/-- **A system whose `unknowns` are those of its `equations`, and as many, is not mismatched**: its
solution finds the counts to be equal, and a value for every unknown. -/
theorem errsBy_solve_of_square (hread : ∀ e ∈ s.equations, Expression.ofText e.text context = .ok e)
    (hunknowns : ∀ e ∈ s.equations, e.vars ⊆ s.unknowns)
    (hlength : s.equations.length = s.unknowns.length) (margin : α) (limit : Int) :
    ErrsBy (fun cause => ¬ cause.Mismatch) (s.solve margin limit) := by
  have hkeys : (s.searches.map fun p => (p.1, p.2.guess)).map Prod.fst = s.unknowns := by
    rw [List.map_map]
    rfl
  -- The iteration looks only at points that list all unknowns, where the padded residuals, which
  -- never miss a value, are the same.
  have hsame : Newton.SameAt ((s.searches.map fun p => (p.1, p.2.guess)).map Prod.fst)
      (residuals s.equations) (paddedResiduals s.equations) := by
    rw [hkeys]
    exact sameAt_paddedResiduals hread hunknowns
  unfold solve
  rw [Newton.solveSystem_congr hsame]
  refine errsBy_result (Newton.failsBy_solveSystem rfl nofun (fun hne => ?_) (fun e he => ?_)
    (Newton.residualsKeep_true _) (fun r hr x _ => ?_) (Newton.over_true _) _)
  · -- There are as many residuals as guesses.
    refine absurd ?_ hne
    rw [paddedResiduals, List.length_mapIdx, hlength, ← hkeys, List.length_map]
  · cases he with
    | notFinite name => exact fun h => by cases h with | evaluation h => cases h
    | divisionByZero x hx => exact nofun
    | singularJacobian outcome => exact nofun
    | iterationLimit limit last => exact nofun
  · obtain ⟨i, hi, rfl⟩ := List.mem_mapIdx.mp hr
    refine Newton.failsBy_evaluate (fun h => by cases h with | evaluation h => cases h)
      (failsBy_lift ?_)
    refine (Expression.errsBy_evaluate_of_values fun n _ => rfl).mono fun cause hcause => ?_
    split
    · rintro (_ | _ | h)
      exact hcause h
    · exact hcause

/-! ### Systems that have been built -/

/-- The system has been made of the builder, and since then it may have been changed where unknowns
are looked for. -/
inductive BuiltFrom (b : SystemBuilder α) : ConstrainedSystem α → Prop
  | build {bounds : Newton.Interval α} {s : ConstrainedSystem α} : b.build bounds = .ok s →
    BuiltFrom b s
  | changeSearch {s : ConstrainedSystem α} (name : String) (f : Search α → Search α) :
    BuiltFrom b s → BuiltFrom b (s.changeSearch name f)

/-- Where to look for an unknown does not change which `unknowns` there are. -/
private theorem unknowns_changeSearch (s : ConstrainedSystem α) (name : String)
    (f : Search α → Search α) : (s.changeSearch name f).unknowns = s.unknowns := by
  unfold unknowns changeSearch
  rw [List.map_map]
  refine List.map_congr_left fun p _ => ?_
  rw [Function.comp_apply]
  split <;> rfl

namespace BuiltFrom

/-- A system stays `BuiltFrom` its builder when an unknown is specified. -/
theorem specify (h : BuiltFrom b s) {name : String} {search : Search α}
    (hs : s.specify name search = some s') : BuiltFrom b s' := by
  unfold ConstrainedSystem.specify at hs
  split at hs
  · cases hs
    exact h.changeSearch name _
  · cases hs

/-- A system has the equations of the builder that it is `BuiltFrom`. -/
private theorem equations_eq (h : BuiltFrom b s) : s.equations = b.equations := by
  induction h with
  | build h =>
    obtain ⟨-, rfl⟩ := SystemBuilder.build_eq_ok h
    rfl
  | changeSearch name f _ ih => exact ih

/-- A system has the `unknowns` of the builder that it is `BuiltFrom`. -/
private theorem unknowns_eq (h : BuiltFrom b s) : s.unknowns = b.unknowns := by
  induction h with
  | build h =>
    obtain ⟨-, rfl⟩ := SystemBuilder.build_eq_ok h
    simp [unknowns, Function.comp_def]
  | changeSearch name f _ ih => exact (unknowns_changeSearch _ name f).trans ih

/-- A builder from which a system is built has as many `equations` as `unknowns`. -/
theorem length_eq (h : BuiltFrom b s) : b.equations.length = b.unknowns.length := by
  induction h with
  | build h => exact (SystemBuilder.build_eq_ok h).1
  | changeSearch name f _ ih => exact ih

end BuiltFrom

end ConstrainedSystem

/-! ### Attempts -/

namespace SystemBuilder

/-- Whether an attempt answers that the equation has been accepted. -/
def accepts (b : SystemBuilder α) (text : String) : Bool :=
  match b.tryConstrain text with
  | .ok (status, _) => status != .tooMany
  | .error _ => false

/-- The builder after an attempt. One that fails leaves it as it is. -/
def attempt (b : SystemBuilder α) (text : String) : SystemBuilder α :=
  match b.tryConstrain text with
  | .ok (_, b') => b'
  | .error _ => b

/-- The texts that are accepted when all are attempted one after the other. -/
def accepted (b : SystemBuilder α) : List String → List String
  | [] => []
  | text :: texts =>
    if b.accepts text then text :: accepted (b.attempt text) texts
    else accepted (b.attempt text) texts

/-- The equations of the builder have been read from these texts, with the context. -/
structure Holds (context : Context α) (texts : List String) (b : SystemBuilder α) : Prop where
  context_eq : b.context = context
  read : List.Forall₂ (fun text e => Expression.ofText text context = .ok e) texts b.equations

/-- How many `unknowns` there are with one more equation. -/
theorem card_unknowns_union (b : SystemBuilder α) (e : Expression α) :
    (b.unknowns.toFinset ∪ e.vars.toFinset).card = (unknownsOf (b.equations ++ [e])).length := by
  rw [← List.toFinset_card_of_nodup (nodup_unknownsOf _)]
  congr 1
  ext name
  simp only [Finset.mem_union, List.mem_toFinset, unknowns, mem_unknownsOf, List.mem_append,
    List.mem_singleton]
  constructor
  · rintro (⟨f, hf, hname⟩ | hname)
    · exact ⟨f, .inl hf, hname⟩
    · exact ⟨e, .inr rfl, hname⟩
  · rintro ⟨f, hf | rfl, hname⟩
    · exact .inl ⟨f, hf, hname⟩
    · exact .inr hname

/-- **An equation is accepted exactly if it can be read and there are at least as many `unknowns` as
equations then.** -/
theorem accepts_iff {text : String} : b.accepts text = true ↔
    ∃ e, Expression.ofText text b.context = .ok e ∧
      b.equations.length + 1 ≤ (b.unknowns.toFinset ∪ e.vars.toFinset).card := by
  simp only [card_unknowns_union]
  unfold accepts
  cases h : b.tryConstrain text with
  | error cause =>
    -- It fails because the text cannot be read.
    refine iff_of_false (by simp) ?_
    rintro ⟨e, he, -⟩
    unfold tryConstrain at h
    rw [he] at h
    dsimp only at h
    split at h <;> cases h
  | ok r =>
    obtain ⟨status, b'⟩ := r
    rcases tryConstrain_eq_ok h with ⟨rfl, -, hnot⟩ | ⟨e, he, rfl, rfl, hle⟩
    · refine iff_of_false (by simp) ?_
      rintro ⟨e, he, hle⟩
      rcases hnot with ⟨cause, hcause⟩ | ⟨f, hf, hlt⟩
      · rw [he] at hcause
        cases hcause
      · rw [he] at hf
        cases hf
        omega
    · refine iff_of_true ?_ ⟨e, he, hle⟩
      rw [bne_iff_ne, status, ne_eq, ConstraintStatus.ofCounts_eq_tooMany, not_lt,
        List.length_append, List.length_singleton]
      exact hle

/-- A builder that `accepts` an equation takes it. -/
theorem attempt_of_accepts {text : String} (h : b.accepts text = true) :
    ∃ e, Expression.ofText text b.context = .ok e ∧
      b.attempt text = ⟨b.context, b.equations ++ [e]⟩ ∧
      b.tryConstrain text = .ok ((b.attempt text).status, b.attempt text) := by
  unfold accepts at h
  unfold attempt
  split at h
  · rename_i status b' hb'
    rcases tryConstrain_eq_ok hb' with ⟨rfl, -⟩ | ⟨e, he, rfl, rfl, -⟩
    · cases h
    · rw [hb']
      exact ⟨e, he, rfl, rfl⟩
  · cases h

/-- A builder that does not accept an equation stays as it is. -/
theorem attempt_of_rejects {text : String} (h : b.accepts text = false) : b.attempt text = b := by
  unfold attempt
  cases hattempt : b.tryConstrain text with
  | error cause => rfl
  | ok r =>
    obtain ⟨status, b'⟩ := r
    rcases tryConstrain_eq_ok hattempt with ⟨-, rfl, -⟩ | ⟨e, he, -, -, hle⟩
    · rfl
    · rw [← card_unknowns_union] at hle
      rw [accepts_iff.mpr ⟨e, he, hle⟩] at h
      cases h

/-! ### Runs of attempts -/

namespace Holds

theorem attempt (h : Holds context texts b) (text : String) :
    Holds context (if b.accepts text then texts ++ [text] else texts) (b.attempt text) := by
  cases hb : b.accepts text with
  | false =>
    rw [attempt_of_rejects hb]
    exact h
  | true =>
    obtain ⟨e, he, hattempt, -⟩ := attempt_of_accepts hb
    rw [h.context_eq] at he
    rw [hattempt, if_pos rfl]
    exact ⟨h.context_eq, List.rel_append h.read (.cons he .nil)⟩

/-- Attempts keep what a builder `Holds`, by induction on them. -/
theorem attempts : ∀ (further : List String) {texts : List String} {b : SystemBuilder α},
    Holds context texts b →
      Holds context (texts ++ b.accepted further) (further.foldl SystemBuilder.attempt b)
  | [], texts, b, h => by
    rw [accepted, List.append_nil]
    exact h
  | text :: further, texts, b, h => by
    have hrest := attempts further (h.attempt text)
    rw [accepted, List.foldl_cons]
    cases hb : b.accepts text with
    | false =>
      rw [hb] at hrest
      exact hrest
    | true =>
      rw [hb, if_pos rfl, List.append_assoc] at hrest
      exact hrest

/-- The `texts` of a builder are those that it `Holds`. -/
private theorem texts_eq (h : Holds context texts b) : b.texts = texts := by
  obtain ⟨-, hread⟩ := h
  unfold SystemBuilder.texts
  generalize b.equations = es at hread
  induction hread with
  | nil => rfl
  | @cons text e texts es he _ ih =>
    obtain ⟨_, r, -, -, rfl⟩ := Expression.ofText_eq_ok he
    rw [List.map_cons, ih]

/-- The equations of a builder are read from their `texts`. -/
private theorem read_texts (h : Holds context texts b) :
    ∀ e ∈ b.equations, Expression.ofText e.text context = .ok e := by
  intro e he
  obtain ⟨text, -, hread⟩ := exists_of_mem_of_forall₂ h.read e he
  obtain ⟨_, r, -, -, rfl⟩ := Expression.ofText_eq_ok hread
  exact hread

/-- The `unknowns` of a builder are those of the `texts` that it `Holds`. -/
private theorem mem_unknowns (h : Holds context texts b) {name : String} :
    name ∈ b.unknowns ↔
      ∃ text ∈ texts, ∃ e, Expression.ofText text context = .ok e ∧ name ∈ e.vars := by
  rw [SystemBuilder.unknowns, mem_unknownsOf]
  constructor
  · rintro ⟨e, he, hname⟩
    obtain ⟨text, htext, hread⟩ := exists_of_mem_of_forall₂ h.read e he
    exact ⟨text, htext, e, hread, hname⟩
  · rintro ⟨text, htext, e, hread, hname⟩
    obtain ⟨f, hf, hread'⟩ := exists_of_mem_of_forall₂ h.read.flip text htext
    rw [hread] at hread'
    cases hread'
    exact ⟨e, hf, hname⟩

end Holds

/-- What a builder is after a number of attempts, and what can be made of it. The first of the texts
is the seed, and the others have been accepted. -/
structure Accounts (context : Context α) (texts : List String) (b : SystemBuilder α) : Prop where
  /-- The equations are those of the `texts`, in order, read with the context. -/
  holds : Holds context texts b
  texts_eq : b.texts = texts
  /-- The `unknowns` are those of the `equations`, each one once. -/
  nodup_unknowns : b.unknowns.Nodup
  mem_unknowns : ∀ name, name ∈ b.unknowns ↔
    ∃ text ∈ texts, ∃ e, Expression.ofText text context = .ok e ∧ name ∈ e.vars
  /-- An equation is accepted exactly if it can be read and there are at least as many `unknowns` as
  equations then. -/
  accepts_iff : ∀ text, b.accepts text = true ↔ ∃ e, Expression.ofText text context = .ok e ∧
    b.equations.length + 1 ≤ (b.unknowns.toFinset ∪ e.vars.toFinset).card
  /-- An equation that is not accepted changes nothing. -/
  rejected : ∀ text, b.accepts text = false → b.attempt text = b
  /-- One that is accepted is answered with the `status` after it. -/
  accepted : ∀ text, b.accepts text = true →
    b.tryConstrain text = .ok ((b.attempt text).status, b.attempt text)
  /-- A system that is made of the builder has a residual for each unknown, no two of which have the
  same name. -/
  names : ∀ s, ConstrainedSystem.BuiltFrom b s → s.unknowns = b.unknowns ∧
    ((ConstrainedSystem.residuals s.equations).map (·.name)).Nodup ∧
    (ConstrainedSystem.residuals s.equations).length = s.unknowns.length
  /-- Its solution does not find the numbers to differ, and misses no value. -/
  solve : ∀ s, ConstrainedSystem.BuiltFrom b s → ∀ margin limit,
    ErrsBy (fun cause => ¬ cause.Mismatch) (s.solve margin limit)

/-- **Whatever is attempted, a builder holds its seed and what it has accepted.** -/
theorem accounts_of_new {seed : String} (h : new seed context = .ok b) (attempts : List String) :
    Accounts context (seed :: b.accepted attempts) (attempts.foldl attempt b) := by
  obtain ⟨e, he, rfl⟩ := new_eq_ok h
  have hseed : Holds context [seed] ⟨context, [e]⟩ := ⟨rfl, .cons he .nil⟩
  have hholds := hseed.attempts attempts
  exact
    { holds := hholds
      texts_eq := hholds.texts_eq
      nodup_unknowns := nodup_unknownsOf _
      mem_unknowns := fun _ => hholds.mem_unknowns
      accepts_iff := fun text => by
        rw [SystemBuilder.accepts_iff, hholds.context_eq]
      rejected := fun _ => attempt_of_rejects
      accepted := fun _ haccepts => by
        obtain ⟨_, -, -, hanswer⟩ := attempt_of_accepts haccepts
        exact hanswer
      -- Names of residuals begin with the position of the equation, so they are distinct.
      names := fun s hs => by
        refine ⟨hs.unknowns_eq, ConstrainedSystem.nodup_names_residuals _, ?_⟩
        rw [ConstrainedSystem.residuals, List.length_mapIdx, hs.equations_eq, hs.length_eq,
          hs.unknowns_eq]
      solve := fun s hs margin limit => by
        have hunknowns : ∀ f ∈ s.equations, f.vars ⊆ s.unknowns := by
          rw [hs.equations_eq, hs.unknowns_eq]
          exact fun f hf name hname => mem_unknownsOf.mpr ⟨f, hf, hname⟩
        have hread : ∀ f ∈ s.equations, Expression.ofText f.text context = .ok f := by
          rw [hs.equations_eq]
          exact hholds.read_texts
        have hlength : s.equations.length = s.unknowns.length := by
          rw [hs.equations_eq, hs.unknowns_eq, hs.length_eq]
        exact ConstrainedSystem.errsBy_solve_of_square hread hunknowns hlength margin limit }

/-- A text that is no equation is rejected, the equation of the seed is accepted again, and then
there is no room for another one. -/
theorem accounts_repeated :
    ∃ b : SystemBuilder Float, new "x + y = 3" [] = .ok b ∧
      Accounts [] ["x + y = 3", "x + y = 3"]
        (["x +", "x + y = 3", "x - y = 1"].foldl attempt b) := by
  have haccepted : (new "x + y = 3" ([] : Context Float)).toOption.map
      (·.accepted ["x +", "x + y = 3", "x - y = 1"]) = some ["x + y = 3"] := by decide +kernel
  obtain ⟨b, hb, htexts⟩ := Option.map_eq_some_iff.mp haccepted
  have hnew := except_toOption_eq_some.mp hb
  have haccounts := accounts_of_new hnew ["x +", "x + y = 3", "x - y = 1"]
  rw [htexts] at haccounts
  exact ⟨b, hnew, haccounts⟩

end SystemBuilder

end FluxBalance
