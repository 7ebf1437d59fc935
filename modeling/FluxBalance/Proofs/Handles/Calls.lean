import FluxBalance.Proofs.Handles.Endings

/-!
# What callers of the facade may rely on

A caller sees replies and, through further calls, what has become of the objects. Two things are
promised: failures are replies, and a call that has failed has not changed anything. Both hold with
exceptions. Some failures are `LetThrough`, and the guess of an unknown is set before its bounds are
understood.

## Main definitions and results

* `HandleTable.Reachable`, `HandleTable.proper_of_reachable`: the tables that come about by calls
  are `Proper`;
* `answered_or_letThrough`: a call answers what its operation has answered or reported, unless the
  failure is `LetThrough`;
* `unchanged_of_fails`: a call that `Fails` changes nothing, or it is `HalfSpecified`.
-/

namespace FluxBalance

open FluxBalance.Computation Equation HandleAction Operation

/-! ### Tables that come about -/

/-- The tables that come about by calls. -/
inductive HandleTable.Reachable : HandleTable → Prop
  | empty : Reachable empty
  | call {t : HandleTable} (op : Operation) (args : List Argument) :
    Reachable t → Reachable (op.call args t).2

namespace Operation

variable {t : HandleTable} {op : Operation} {args : List Argument}

/-- The table after a call is the one that the operation leaves. -/
theorem snd_call (op : Operation) (args : List Argument) (t : HandleTable) :
    (op.call args t).2 = finalState (op.run args t) := by
  unfold call
  cases op.run args t with
  | ok r t' => rfl
  | error e t' =>
    dsimp only
    split
    · split <;> rfl
    · rfl

private theorem Ends.proper {r : EStateM.Result (Error Float) HandleTable Reply}
    (h : Ends t op args r) (ht : t.Proper) : (finalState r).Proper := by
  cases h with
  | failed | letThrough | looked => exact ht
  | halfway _ hhalf =>
    cases hhalf
    exact ht.replace _ _
  | created x => exact ht.insert x
  | changed | kept => exact ht.replace _ _
  | destroyed => exact ht.erase _

end Operation

/-- **Tables that come about by calls are `Proper`.** -/
theorem HandleTable.proper_of_reachable {t : HandleTable} (h : t.Reachable) : t.Proper := by
  induction h with
  | empty => exact proper_empty
  | call op args _ ih =>
    rw [snd_call]
    exact (ends_run _ op args).proper ih

namespace Operation

variable {t : HandleTable} {op : Operation} {args : List Argument}

/-! ### Failures as replies -/

/-- The operations without a reply for failures fail on a wrong number of arguments only. -/
private theorem letThrough_of_failure?_eq_none (hop : op.failure? = none) {e : Error Float}
    {t' : HandleTable} (h : op.run args t = .error e t') : LetThrough t op args e := by
  cases op <;> try cases hop
  · unfold run at h
    dsimp only at h
    split at h
    · cases h
    · rename_i hargs
      cases h
      exact .releaseText fun hone => hargs _ (List.length_eq_one_iff.mp hone).choose_spec
  · unfold run at h
    dsimp only at h
    split at h
    · cases h
    · rename_i hargs
      cases h
      exact .countHandles hargs

/-- **Failures are replies, unless they are `LetThrough`.** On every table, every call answers what
its operation has answered, or the reply with which the operation reports failures if it has failed;
or else it lets a failure through, which happens for names that are no texts, for equations that
call an unknown function, and for wrong numbers of arguments of two operations. -/
theorem answered_or_letThrough (t : HandleTable) (op : Operation) (args : List Argument) :
    (∃ r, (op.call args t).1 = .ok r ∧ ((∃ t', op.run args t = .ok r t') ∨
      (∃ e t', op.run args t = .error e t') ∧ op.failure? = some r)) ∨
      ∃ e, (op.call args t).1 = .error e ∧ LetThrough t op args e := by
  have hends := ends_run t op args
  unfold call
  cases hrun : op.run args t with
  | ok r t' => exact .inl ⟨r, rfl, .inl ⟨t', rfl⟩⟩
  | error e t' =>
    rw [hrun] at hends
    cases hfailure : op.failure? with
    | none => exact .inr ⟨e, rfl, letThrough_of_failure?_eq_none hfailure hrun⟩
    | some r =>
      by_cases hreported : isReported e = true
      · exact .inl ⟨r, by dsimp only; rw [if_pos hreported], .inr ⟨⟨e, t', rfl⟩, rfl⟩⟩
      · refine .inr ⟨e, by dsimp only; rw [if_neg hreported], ?_⟩
        cases hends with
        | failed h => exact absurd h hreported
        | letThrough h => exact h
        | halfway _ _ h => exact absurd h hreported

/-- Whether it is let through that the function is not known. -/
def isUnknownFunction (f : String) : Except (Error Float) Reply → Bool
  | .error (.fault (.unknownFunction g)) => g == f
  | _ => false

private theorem eq_of_isUnknownFunction {f : String} {answer : Except (Error Float) Reply}
    (h : isUnknownFunction f answer = true) : answer = .error (.fault (.unknownFunction f)) := by
  unfold isUnknownFunction at h
  split at h
  · rw [beq_iff_eq.mp h]
  · cases h

/-- An equation that calls an unknown function is not answered. -/
theorem letThrough_unknownFunction :
    (solveEquation.call [.text "foo(x) = 1", .int 0, .int 1, .int (-10), .int 10, .real 0.0001,
      .int 100] .empty).1 = .error (.fault (.unknownFunction "foo")) :=
  eq_of_isUnknownFunction (by decide +kernel)

/-! ### Failures change nothing -/

/-- A call fails if it is not answered or if the answer reports a failure. -/
def Fails (op : Operation) (answer : Except (Error Float) Reply) : Prop :=
  ∀ r, answer = .ok r → op.signals r = true

/-- The operations that make objects report failures by zero. -/
private theorem signals_created (hop : op.failure? = some (.code 0)) {n : Nat} (hn : 0 < n) :
    op.signals (.code n) = false := by
  have hne : (n : Int) ≠ 0 := Int.natCast_ne_zero.mpr hn.ne'
  cases op
  all_goals first
    | exact beq_eq_false_iff_ne.mpr hne
    | cases hop

/-- **A call that `Fails` changes nothing**, except that setting where to look for an unknown may
have set the guess and then fail at a bound. -/
theorem unchanged_of_fails (ht : t.Reachable) (hfails : op.Fails (op.call args t).1) :
    (op.call args t).2 = t ∨
      op = specifyVariable ∧ HalfSpecified t args (op.call args t).2 := by
  have hproper := HandleTable.proper_of_reachable ht
  have hends := ends_run t op args
  rw [snd_call]
  unfold call at hfails
  cases hrun : op.run args t with
  | ok r t' =>
    rw [hrun] at hends hfails
    have hsignals : op.signals r = true := hfails r rfl
    cases hends with
    | looked => exact .inl rfl
    | created x hop =>
      rw [signals_created hop hproper.next_pos] at hsignals
      cases hsignals
    | changed _ hr =>
      rw [hr] at hsignals
      cases hsignals
    | kept _ hx => exact .inl (hproper.replace_self hx)
    | destroyed _ hr =>
      rw [hr] at hsignals
      cases hsignals
  | error e t' =>
    rw [hrun] at hends
    cases hends with
    | failed => exact .inl rfl
    | letThrough => exact .inl rfl
    | halfway hop hhalf => exact .inr ⟨hop, hhalf⟩

/-! ### A system with one unknown -/

/-- A builder with one equation and the system that it is made. -/
def oneUnknown : HandleTable :=
  (buildSystem.call [.int 1] (newBuilder.call [.text "x^2 - 4", .int 0] .empty).2).2

private theorem reachable_oneUnknown : oneUnknown.Reachable := .call _ _ (.call _ _ .empty)

/-- Whether an answer is the given code. -/
def isCode (n : Int) : Except (Error Float) Reply → Bool
  | .ok (.code m) => m == n
  | _ => false

private theorem eq_of_isCode {n : Int} {answer : Except (Error Float) Reply}
    (h : isCode n answer = true) : answer = .ok (.code n) := by
  unfold isCode at h
  split at h
  · rw [beq_iff_eq.mp h]
  · cases h

/-- A further equation is refused and the builder is as before. -/
theorem unchanged_oneUnknown :
    constrain.Fails (constrain.call [.int 1, .text "x + 1"] oneUnknown).1 ∧
      (constrain.call [.int 1, .text "x + 1"] oneUnknown).2 = oneUnknown := by
  have hanswer : (constrain.call [.int 1, .text "x + 1"] oneUnknown).1 = .ok (.code (-1)) :=
    eq_of_isCode (by decide +kernel)
  have hfails : constrain.Fails (constrain.call [.int 1, .text "x + 1"] oneUnknown).1 := by
    intro r hr
    rw [hanswer] at hr
    cases hr
    rfl
  refine ⟨hfails, (unchanged_of_fails reachable_oneUnknown hfails).resolve_right ?_⟩
  rintro ⟨hop, -⟩
  cases hop

/-- Whether an object is a system that looks for an unknown from the given value on. -/
def hasGuess (x : Float) : HandledObject → Bool
  | .system s => s.searches.any fun p => p.2.guess == x
  | _ => false

/-- Bounds that are too large for scalars are refused after the guess has been set. -/
theorem guess_set_of_fails : oneUnknown.Reachable ∧
    (specifyVariable.call [.int 2, .text "x", .int (-5), .int (10 ^ 400), .int (10 ^ 401)]
      oneUnknown).1 = .ok (.code 0) ∧
    (specifyVariable.call [.int 2, .text "x", .int (-5), .int (10 ^ 400), .int (10 ^ 401)]
      oneUnknown).2 ≠ oneUnknown := by
  -- The guess tells the tables apart.
  have hbefore : ((oneUnknown.get? 2).map (hasGuess (-5))) = some false := by decide +kernel
  have hafter : ((specifyVariable.call [.int 2, .text "x", .int (-5), .int (10 ^ 400),
      .int (10 ^ 401)] oneUnknown).2.get? 2).map (hasGuess (-5)) = some true := by
    decide +kernel
  refine ⟨reachable_oneUnknown, eq_of_isCode (by decide +kernel), fun hsame => ?_⟩
  rw [hsame, hbefore] at hafter
  cases hafter

end Operation

end FluxBalance
