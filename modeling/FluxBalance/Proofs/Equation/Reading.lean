import FluxBalance.Proofs.Equation.Brackets
import FluxBalance.Proofs.Equation.Rules
import Mathlib.Data.List.Basic

/-!
# What a reading depends on

Every function of the grammar that reads an operand uses up some tokens and hands on the rest. What
it makes of them depends on these tokens alone and on the first token after them: with any other
rest that begins alike it reads the same, at any depth that is enough for the tokens used, and with
any other names that stand alone as long as none of the names that are called becomes one of them.
The tokens used have `Balanced` brackets. A list in brackets does not even depend on the first token
after the closing one.

The functions call each other at a smaller depth, so the proof is by induction on the depth, with
one lemma for each shape of function: an operand and what may follow it, a chain of operands joined
by operators, and the atoms.

## Main definitions and results

* `Local`, `LocalRest`, `LocalList`: what is read depends on the tokens used and on the first one
  after them, at the most;
* `Readers`, `readers`: the functions of the grammar are like this, by induction on the depth.
-/

namespace FluxBalance.Equation.Reader

/-! ### Readings that depend on what they use -/

section

variable {β γ : Type}

/-- The tokens used are read again: with other names that stand alone, of which none is called that
was not among them before, at any depth that is enough, and with any rest that the condition on its
first token allows. -/
def Again (F : Reads β) (bare : List String) (k : Nat) (used : List Token) (a : β)
    (next : Option Token → Prop) : Prop :=
  ∀ ⦃bare' : List String⦄ ⦃m : Nat⦄ ⦃rest : List Token⦄, NoWider bare' bare used →
    next rest.head? → 16 * used.length + k ≤ m → F bare' m (used ++ rest) = some (a, rest)

/-- What has been read from the tokens up to the rest, of which there is at least one, is read again
wherever these tokens stand before a rest that begins alike. -/
def Repeats (F : Reads β) (bare : List String) (k : Nat) (ts : List Token) (a : β)
    (rest : List Token) : Prop :=
  ∃ used, ts = used ++ rest ∧ used ≠ [] ∧ Balanced used ∧ Heeds bare used ∧
    Again F bare k used a (· = rest.head?)

/-- What is read depends on the tokens used, at least one, and on the first one after them. -/
def Local (k : Nat) (F : Reads β) (n : Nat) : Prop :=
  ∀ ⦃bare : List String⦄ ⦃ts : List Token⦄ ⦃a : β⦄ ⦃rest : List Token⦄,
    F bare n ts = some (a, rest) → Repeats F bare k ts a rest

/-- What is read depends on the tokens used, which may be none, and on the first one after them. -/
def LocalRest (k : Nat) (F : Reads β) (n : Nat) : Prop :=
  ∀ ⦃bare : List String⦄ ⦃ts : List Token⦄ ⦃a : β⦄ ⦃rest : List Token⦄,
    F bare n ts = some (a, rest) → ∃ used, ts = used ++ rest ∧ used.head? ≠ some (.op "(") ∧
      Balanced used ∧ Heeds bare used ∧ Again F bare k used a (· = rest.head?)

/-- What is read up to a closing symbol depends on the tokens up to it. -/
def LocalList (k : Nat) (close : String) (F : Reads β) (n : Nat) : Prop :=
  ∀ ⦃bare : List String⦄ ⦃ts : List Token⦄ ⦃a : β⦄ ⦃rest : List Token⦄,
    F bare n ts = some (a, rest) → ∃ inner, ts = inner ++ .op close :: rest ∧ Balanced inner ∧
      Heeds bare inner ∧ Again F bare k (inner ++ [.op close]) a fun _ => True

/-- What comes first does not depend on the end but for its first token. -/
private theorem head?_append_congr (used : List Token) {rest rest' : List Token}
    (h : rest'.head? = rest.head?) : (used ++ rest').head? = (used ++ rest).head? := by
  rw [List.head?_append, List.head?_append, h]

variable {bare : List String} {n : Nat} {ts rest : List Token}

/-- Nothing more is read, and nothing more is read before a rest that begins alike. -/
private theorem repeats_nothing {F : Reads β} {k : Nat} {a : β}
    (h : ∀ ⦃bare' : List String⦄ ⦃m : Nat⦄ ⦃rest' : List Token⦄, rest'.head? = rest.head? → k ≤ m →
      F bare' m rest' = some (a, rest')) :
    ∃ used, rest = used ++ rest ∧ used.head? ≠ some (.op "(") ∧ Balanced used ∧ Heeds bare used ∧
      Again F bare k used a (· = rest.head?) :=
  ⟨[], rfl, nofun, balanced_nil, heeds_nil bare, fun _ _ _ _ hnext hm =>
    h hnext (by simpa using hm)⟩

/-- Nothing more is read. -/
private theorem localRest_pure (n : Nat) (b : β) : LocalRest 0 (fun _ _ ts => some (b, ts)) n := by
  intro bare ts a rest h
  cases h
  exact repeats_nothing fun _ _ _ _ _ => rfl

/-! ### Chains -/

/-- An operand and what may follow it. The function may look at the first token to choose this
way of reading. -/
private theorem repeats_chain (first : Option Token → Prop) {F : Reads β} {H : β → Reads γ}
    {G : Reads γ} {k l : Nat} {a : γ} (hG : ∀ bare n ts, first ts.head? →
      G bare (n + 1) ts = (F bare n ts).bind fun r => H r.1 bare n r.2)
    (hl : l ≤ k + 16) (hF : Local k F n) (hH : ∀ b, LocalRest l (H b) n) (hfirst : first ts.head?)
    (h : G bare (n + 1) ts = some (a, rest)) : Repeats G bare (k + 1) ts a rest := by
  rw [hG _ _ _ hfirst] at h
  obtain ⟨⟨b, mid⟩, hoperand, hmore⟩ := Option.bind_eq_some_iff.mp h
  obtain ⟨used, rfl, hne, hbalanced, hheeds, hagain⟩ := hF hoperand
  obtain ⟨more, rfl, hhead, hbalanced', hheeds', hagain'⟩ := hH b hmore
  have hlength := List.length_pos_iff.mpr hne
  refine ⟨used ++ more, (List.append_assoc ..).symm, List.append_ne_nil_of_left_ne_nil hne _,
    hbalanced.append hbalanced', hheeds.append hheeds' hhead,
    fun bare' m rest' hcalls hnext hm => ?_⟩
  have hsame : (used ++ more ++ rest').head? = (used ++ (more ++ rest)).head? := by
    rw [List.append_assoc, List.head?_append_of_ne_nil _ hne, List.head?_append_of_ne_nil _ hne]
  rw [List.length_append] at hm
  obtain ⟨m, rfl⟩ : ∃ i, m = i + 1 := ⟨m - 1, by omega⟩
  rw [hG _ _ _ (hsame ▸ hfirst), List.append_assoc,
    hagain hcalls.left (head?_append_congr more hnext) (by omega)]
  exact hagain' hcalls.right hnext (by omega)

/-- An operand and what may follow it, whatever the first token is. -/
private theorem Local.chain {F : Reads β} {H : β → Reads γ} {G : Reads γ} {k l : Nat}
    (hF : Local k F n) (hH : ∀ b, LocalRest l (H b) n)
    (hG : ∀ bare n ts, G bare (n + 1) ts = (F bare n ts).bind fun r => H r.1 bare n r.2)
    (hl : l ≤ k + 16) : Local (k + 1) G (n + 1) := by
  intro bare ts a rest h
  exact repeats_chain (fun _ => True) (fun bare n ts _ => hG bare n ts) hl hF hH trivial h

/-- An operand after a token. -/
private theorem repeats_prefixed {F : Reads β} {G : Reads γ} {f : β → Option γ} {t : Token}
    {k l : Nat} {a : γ} (hG : ∀ bare n ts, G bare (n + 1) (t :: ts) =
      (F bare n ts).bind fun r => (f r.1).map fun a => (a, r.2))
    (ht : weight t = 0) (hname : ∀ f, t = .name f → f ∈ keywords) (hk : k ≤ l + 15)
    (hF : Local k F n) (h : G bare (n + 1) (t :: ts) = some (a, rest)) :
    Repeats G bare l (t :: ts) a rest := by
  rw [hG] at h
  obtain ⟨⟨b, mid⟩, hoperand, hresult⟩ := Option.bind_eq_some_iff.mp h
  obtain ⟨c, hc, hresult⟩ := Option.map_eq_some_iff.mp hresult
  cases hresult
  obtain ⟨used, rfl, -, hbalanced, hheeds, hagain⟩ := hF hoperand
  refine ⟨t :: used, rfl, List.cons_ne_nil _ _, hbalanced.cons ht, hheeds.cons hname,
    fun bare' m rest' hcalls hnext hm => ?_⟩
  rw [List.length_cons] at hm
  obtain ⟨m, rfl⟩ : ∃ i, m = i + 1 := ⟨m - 1, by omega⟩
  rw [List.cons_append, hG, hagain hcalls.tail hnext (by omega), Option.bind_some, hc]
  rfl

/-- Operands joined by operators, after the first one. -/
private theorem local_joined (join : String → Option (Operand → Operand → Option Operand))
    {F : Reads Operand} {R : Operand → Reads Operand} {H : Operand → Operand → Reads Operand}
    {k l : Nat}
    (hstop : ∀ a bare n ts, (∀ s, ts.head? = some (.op s) → join s = none) →
      R a bare (n + 1) ts = some (a, ts))
    (hstep : ∀ a bare n s op rest, join s = some op → R a bare (n + 1) (.op s :: rest) =
      (F bare n rest).bind fun r => (op a r.1).bind fun c => H r.1 c bare n r.2)
    (hjoin : ∀ s op, join s = some op → weight (.op s) = 0) (hk : k ≤ 16) (hl : l ≤ 16)
    (hF : Local k F n) (hH : ∀ b c, LocalRest l (H b c) n) (a : Operand) :
    LocalRest 1 (R a) (n + 1) := by
  intro bare ts c rest h
  -- Without one of these operators nothing more is used; behind one, an operand and the rest are.
  by_cases hstops : ∀ s, ts.head? = some (.op s) → join s = none
  · rw [hstop a bare n ts hstops] at h
    cases h
    refine repeats_nothing fun bare' m rest' hnext hm => ?_
    obtain ⟨m, rfl⟩ : ∃ i, m = i + 1 := ⟨m - 1, by omega⟩
    exact hstop _ _ _ _ fun s hs => hstops s (hnext ▸ hs)
  · push Not at hstops
    obtain ⟨s, hs, hjoins⟩ := hstops
    obtain ⟨op, hop⟩ := Option.ne_none_iff_exists'.mp hjoins
    obtain ⟨ts, rfl⟩ : ∃ us, ts = .op s :: us := List.head?_eq_some_iff.mp hs
    rw [hstep a bare n s op ts hop] at h
    obtain ⟨⟨b, mid⟩, hoperand, hmore⟩ := Option.bind_eq_some_iff.mp h
    obtain ⟨d, hd, hmore⟩ := Option.bind_eq_some_iff.mp hmore
    obtain ⟨used, rfl, -, hbalanced, hheeds, hagain⟩ := hF hoperand
    obtain ⟨more, rfl, hhead, hbalanced', hheeds', hagain'⟩ := hH b d hmore
    have hweight := hjoin s op hop
    refine ⟨.op s :: (used ++ more), by simp, head?_ne_of_weight hweight _,
      (hbalanced.append hbalanced').cons hweight,
      (hheeds.append hheeds' hhead).cons (by simp), fun bare' m rest' hcalls hnext hm => ?_⟩
    rw [List.length_cons, List.length_append] at hm
    obtain ⟨m, rfl⟩ : ∃ i, m = i + 1 := ⟨m - 1, by omega⟩
    rw [List.cons_append, hstep _ _ _ _ _ _ hop, List.append_assoc,
      hagain hcalls.tail.left (head?_append_congr more hnext) (by omega), Option.bind_some, hd,
      Option.bind_some]
    exact hagain' hcalls.tail.right hnext (by omega)

end

/-! ### The operators and marks of the grammar -/

variable {bare : List String} {n : Nat} {ts rest : List Token} {a : Operand}

private theorem weight_logicalJoin {symbol s : String} {op : Operand → Operand → Option Operand}
    (hsymbol : weight (.op symbol) = 0) (h : logicalJoin symbol s = some op) :
    weight (.op s) = 0 := by
  obtain ⟨rfl, -⟩ : s = symbol ∧ logical = op := by simpa [logicalJoin] using h
  exact hsymbol

private theorem weight_additive {s : String} {op : Operand → Operand → Option Operand}
    (h : scalarJoin additive? s = some op) : weight (.op s) = 0 := by
  obtain ⟨f, hf, -⟩ := Option.map_eq_some_iff.mp h
  unfold additive? at hf
  split at hf
  · decide
  · decide
  · cases hf

private theorem weight_multiplicative {s : String} {op : Operand → Operand → Option Operand}
    (h : scalarJoin multiplicative? s = some op) : weight (.op s) = 0 := by
  obtain ⟨f, hf, -⟩ := Option.map_eq_some_iff.mp h
  unfold multiplicative? at hf
  split at hf
  · decide
  · decide
  · decide
  · decide
  · cases hf

private theorem weight_sign {s : String} (h : isSign s = true) : weight (.op s) = 0 := by
  have hsign : s = "+" ∨ s = "-" ∨ s = "~" := by simpa [isSign, or_assoc] using h
  rcases hsign with rfl | rfl | rfl <;> decide

private theorem weight_power {s : String} (h : isPower s = true) : weight (.op s) = 0 := by
  rcases isPower_iff.mp h with rfl | rfl <;> decide

private theorem weight_comparison {s : String} {op : Operand → Operand → Option Operand}
    (h : comparisonJoin s = some op) : weight (.op s) = 0 := by
  have hall : ∀ s ∈ ["==", "!=", "<", ">", "<=", ">="], weight (.op s) = 0 := by decide
  obtain ⟨hcomparison, -⟩ : isComparison s = true ∧ comparison? s = op := by
    simpa [comparisonJoin] using h
  exact hall s (List.contains_iff_mem.mp hcomparison)

private theorem localRest_factorials (a : Operand) (n : Nat) :
    LocalRest 0 (fun _ _ ts => factorials? a ts) n := by
  intro bare ts c rest h
  have hmark : Balanced [.op "!"] := balanced_singleton (by decide)
  have hheeds : Heeds bare [.op "!"] := heeds_singleton bare _
  dsimp only at h
  by_cases hone : ts.head? = some (.op "!")
  · obtain ⟨ts, rfl⟩ : ∃ us, ts = .op "!" :: us := List.head?_eq_some_iff.mp hone
    cases a with
    | scalar f =>
      by_cases htwo : ts.head? = some (.op "!")
      · obtain ⟨ts, rfl⟩ : ∃ us, ts = .op "!" :: us := List.head?_eq_some_iff.mp htwo
        by_cases hthree : ts.head? = some (.op "!")
        · obtain ⟨ts, rfl⟩ : ∃ us, ts = .op "!" :: us := List.head?_eq_some_iff.mp hthree
          cases h
        · rw [factorials?_twice hthree] at h
          cases h
          exact ⟨[.op "!", .op "!"], rfl, by simp, hmark.append hmark, hheeds.cons (by simp),
            fun _ _ _ _ hsame _ => factorials?_twice (hsame ▸ hthree)⟩
      · rw [factorials?_once htwo] at h
        cases h
        exact ⟨[.op "!"], rfl, by simp, hmark, hheeds, fun _ _ _ _ hsame _ =>
          factorials?_once (hsame ▸ htwo)⟩
    | _ =>
      rw [factorials?_of_not_scalar (by simp)] at h
      cases h
  · rw [factorials?_stop hone] at h
    cases h
    exact repeats_nothing fun _ _ _ hsame _ => factorials?_stop (hsame ▸ hone)

/-! ### The functions of the grammar -/

/-- At a depth, what the functions of the grammar read depends on the tokens that they use. -/
structure Readers (n : Nat) : Prop where
  items : ∀ close acc comma,
    LocalList 10 close (fun bare n ts => items? bare n close ts acc comma) n
  next : ∀ close acc, LocalList 9 close (fun bare n ts => next? bare n close ts acc) n
  test : Local 8 test? n
  comparisons : ∀ a, LocalRest 1 (fun bare n ts => comparisons? bare n a ts) n
  disjunction : Local 7 disjunction? n
  disjunctionRest : ∀ a, LocalRest 1 (fun bare n ts => disjunctionRest? bare n a ts) n
  conjunction : Local 6 conjunction? n
  conjunctionRest : ∀ a, LocalRest 1 (fun bare n ts => conjunctionRest? bare n a ts) n
  sum : Local 5 sum? n
  sumRest : ∀ a, LocalRest 1 (fun bare n ts => sumRest? bare n a ts) n
  product : Local 4 product? n
  productRest : ∀ a, LocalRest 1 (fun bare n ts => productRest? bare n a ts) n
  factor : Local 3 factor? n
  powerOf : Local 2 powerOf? n
  primary : Local 1 primary? n
  atom : Local 0 atom? n

namespace Readers

/-- Without fuel nothing is read, so nothing has to be shown. -/
theorem zero : Readers 0 where
  items _ _ _ := fun _ _ _ _ h => by simp at h
  next _ _ := fun _ _ _ _ h => by simp at h
  test := fun _ _ _ _ h => by simp at h
  comparisons _ := fun _ _ _ _ h => by simp at h
  disjunction := fun _ _ _ _ h => by simp at h
  disjunctionRest _ := fun _ _ _ _ h => by simp at h
  conjunction := fun _ _ _ _ h => by simp at h
  conjunctionRest _ := fun _ _ _ _ h => by simp at h
  sum := fun _ _ _ _ h => by simp at h
  sumRest _ := fun _ _ _ _ h => by simp at h
  product := fun _ _ _ _ h => by simp at h
  productRest _ := fun _ _ _ _ h => by simp at h
  factor := fun _ _ _ _ h => by simp at h
  powerOf := fun _ _ _ _ h => by simp at h
  primary := fun _ _ _ _ h => by simp at h
  atom := fun _ _ _ _ h => by simp at h

private theorem disjunction_succ (hn : Readers n) : Local 7 disjunction? (n + 1) :=
  hn.conjunction.chain hn.disjunctionRest disjunction?_eq (by decide)

private theorem conjunction_succ (hn : Readers n) : Local 6 conjunction? (n + 1) :=
  hn.sum.chain hn.conjunctionRest conjunction?_eq (by decide)

private theorem sum_succ (hn : Readers n) : Local 5 sum? (n + 1) :=
  hn.product.chain hn.sumRest sum?_eq (by decide)

private theorem product_succ (hn : Readers n) : Local 4 product? (n + 1) :=
  hn.factor.chain hn.productRest product?_eq (by decide)

/-- One case of the induction in `readers`: the loop over disjunctions. -/
private theorem disjunctionRest_succ (hn : Readers n) (a : Operand) :
    LocalRest 1 (fun bare n ts => disjunctionRest? bare n a ts) (n + 1) :=
  local_joined (R := fun a bare n ts => disjunctionRest? bare n a ts)
    (H := fun _ c bare n ts => disjunctionRest? bare n c ts) (logicalJoin "|")
    (fun _ _ _ _ => disjunctionRest?_stop) (fun _ _ _ _ _ _ => disjunctionRest?_step)
    (fun _ _ => weight_logicalJoin (by decide)) (by decide) (by decide) hn.conjunction
    (fun _ => hn.disjunctionRest) a

/-- One case of the induction in `readers`: the loop over conjunctions. -/
private theorem conjunctionRest_succ (hn : Readers n) (a : Operand) :
    LocalRest 1 (fun bare n ts => conjunctionRest? bare n a ts) (n + 1) :=
  local_joined (R := fun a bare n ts => conjunctionRest? bare n a ts)
    (H := fun _ c bare n ts => conjunctionRest? bare n c ts) (logicalJoin "&")
    (fun _ _ _ _ => conjunctionRest?_stop) (fun _ _ _ _ _ _ => conjunctionRest?_step)
    (fun _ _ => weight_logicalJoin (by decide)) (by decide) (by decide) hn.sum
    (fun _ => hn.conjunctionRest) a

/-- One case of the induction in `readers`: the loop over terms. -/
private theorem sumRest_succ (hn : Readers n) (a : Operand) :
    LocalRest 1 (fun bare n ts => sumRest? bare n a ts) (n + 1) :=
  local_joined (R := fun a bare n ts => sumRest? bare n a ts)
    (H := fun _ c bare n ts => sumRest? bare n c ts) (scalarJoin additive?)
    (fun _ _ _ _ => sumRest?_stop) (fun _ _ _ _ _ _ => sumRest?_step)
    (fun _ _ => weight_additive) (by decide) (by decide) hn.product (fun _ => hn.sumRest) a

/-- One case of the induction in `readers`: the loop over factors. -/
private theorem productRest_succ (hn : Readers n) (a : Operand) :
    LocalRest 1 (fun bare n ts => productRest? bare n a ts) (n + 1) :=
  local_joined (R := fun a bare n ts => productRest? bare n a ts)
    (H := fun _ c bare n ts => productRest? bare n c ts) (scalarJoin multiplicative?)
    (fun _ _ _ _ => productRest?_stop) (fun _ _ _ _ _ _ => productRest?_step)
    (fun _ _ => weight_multiplicative) (by decide) (by decide) hn.factor
    (fun _ => hn.productRest) a

/-- What has been compared, with the comparisons that may follow it. -/
theorem compared (hn : Readers n) (b c : Operand) : LocalRest 1 (compared b c) n := by
  intro bare ts a rest h
  by_cases hstops : ∀ s, ts.head? = some (.op s) → isComparison s = false
  · rw [compared_stop hstops] at h
    cases h
    exact repeats_nothing fun _ _ _ hnext _ => compared_stop (hnext ▸ hstops)
  · push Not at hstops
    obtain ⟨s, hs, hcomparison⟩ := hstops
    rw [ne_eq, Bool.not_eq_false] at hcomparison
    rw [compared_step hcomparison hs] at h
    split at h
    · cases h
    · rename_i hc
      obtain ⟨⟨d, mid⟩, hmore, hresult⟩ := Option.map_eq_some_iff.mp h
      cases hresult
      obtain ⟨used, rfl, hhead, hbalanced, hheeds, hagain⟩ := hn.comparisons b hmore
      refine ⟨used, rfl, hhead, hbalanced, hheeds, fun bare' m rest' hcalls hnext hm => ?_⟩
      rw [compared_step hcomparison ((head?_append_congr used hnext).trans hs), if_neg hc]
      exact Option.map_eq_some_iff.mpr ⟨_, hagain hcalls hnext hm, rfl⟩

/-- One case of the induction in `readers`: the loop over comparisons. -/
private theorem comparisons_succ (hn : Readers n) (a : Operand) :
    LocalRest 1 (fun bare n ts => comparisons? bare n a ts) (n + 1) :=
  local_joined (R := fun a bare n ts => comparisons? bare n a ts) (H := Reader.compared)
    comparisonJoin (fun _ _ _ _ => comparisons?_stop)
    (fun _ _ _ _ _ _ => comparisons?_step) (fun _ _ => weight_comparison) (by decide) (by decide)
    hn.disjunction hn.compared a

private theorem test_succ (hn : Readers n) : Local 8 test? (n + 1) := by
  intro bare ts a rest h
  by_cases hnot : ts.head? = some (.name "not")
  · obtain ⟨ts, rfl⟩ : ∃ us, ts = .name "not" :: us := List.head?_eq_some_iff.mp hnot
    exact repeats_prefixed (fun _ _ _ => test?_not) rfl (by simp [keywords]) (by decide) hn.test h
  · exact repeats_chain (· ≠ some (.name "not")) test?_eq (by decide) hn.disjunction
      hn.comparisons hnot h

/-- One case of `readers`: factors with signs. -/
private theorem factor_succ (hn : Readers n) : Local 3 factor? (n + 1) := by
  intro bare ts a rest h
  by_cases hsign : ∀ s, ts.head? = some (.op s) → isSign s = false
  · refine repeats_chain (fun t => ∀ s, t = some (.op s) → isSign s = false)
      (fun _ _ _ h => ?_) (by decide) hn.powerOf (localRest_pure n) hsign h
    rw [factor?_powerOf h, Option.bind_fun_some]
  · push Not at hsign
    obtain ⟨s, hs, hsign⟩ := hsign
    rw [ne_eq, Bool.not_eq_false] at hsign
    obtain ⟨ts, rfl⟩ : ∃ us, ts = .op s :: us := List.head?_eq_some_iff.mp hs
    exact repeats_prefixed (fun _ _ _ => factor?_sign hsign) (weight_sign hsign) (by simp)
      (by decide) hn.factor h

/-- What comes after the base of a power is read locally. -/
theorem powered (hn : Readers n) (a : Operand) : LocalRest 0 (powered a) n := by
  intro bare ts c rest h
  by_cases hstops : ∀ s, ts.head? = some (.op s) → isPower s = false
  · rw [powered_stop hstops] at h
    cases h
    exact repeats_nothing fun _ _ _ hnext _ => powered_stop (hnext ▸ hstops)
  · push Not at hstops
    obtain ⟨s, hs, hpower⟩ := hstops
    rw [ne_eq, Bool.not_eq_false] at hpower
    obtain ⟨ts, rfl⟩ : ∃ us, ts = .op s :: us := List.head?_eq_some_iff.mp hs
    rw [powered_step hpower] at h
    obtain ⟨⟨b, mid⟩, hoperand, hresult⟩ := Option.bind_eq_some_iff.mp h
    obtain ⟨d, hd, hresult⟩ := Option.map_eq_some_iff.mp hresult
    cases hresult
    obtain ⟨used, rfl, -, hbalanced, hheeds, hagain⟩ := hn.factor hoperand
    have hweight := weight_power hpower
    refine ⟨.op s :: used, rfl, head?_ne_of_weight hweight _, hbalanced.cons hweight,
      hheeds.cons (by simp), fun bare' m rest' hcalls hnext hm => ?_⟩
    rw [List.length_cons] at hm
    rw [List.cons_append, powered_step hpower, hagain hcalls.tail hnext (by omega),
      Option.bind_some, hd]
    rfl

private theorem powerOf_succ (hn : Readers n) : Local 2 powerOf? (n + 1) :=
  hn.primary.chain hn.powered powerOf?_eq (by decide)

/-- One case of `readers`: atoms with factorials. -/
private theorem primary_succ (hn : Readers n) : Local 1 primary? (n + 1) :=
  hn.atom.chain (fun a => localRest_factorials a n) primary?_eq (by decide)

/-! ### Items of a list -/

/-- One case of `readers`: items in brackets. -/
private theorem items_succ (hn : Readers n) (close : String) (acc : List Operand) (comma : Bool) :
    LocalList 10 close (fun bare n ts => items? bare n close ts acc comma) (n + 1) := by
  intro bare ts a rest h
  dsimp only at h
  by_cases hclose : ts.head? = some (.op close)
  · obtain ⟨ts, rfl⟩ : ∃ us, ts = .op close :: us := List.head?_eq_some_iff.mp hclose
    rw [items?_close] at h
    cases h
    refine ⟨[], rfl, balanced_nil, heeds_nil bare, fun bare' m rest' _ _ hm => ?_⟩
    obtain ⟨m, rfl⟩ : ∃ i, m = i + 1 := ⟨m - 1, by omega⟩
    exact items?_close
  · rw [items?_next hclose] at h
    obtain ⟨inner, rfl, hbalanced, hheeds, hagain⟩ := hn.next close acc h
    refine ⟨inner, rfl, hbalanced, hheeds, fun bare' m rest' hcalls hnext hm => ?_⟩
    obtain ⟨m, rfl⟩ : ∃ i, m = i + 1 := ⟨m - 1, by omega⟩
    have hsame : (inner ++ [Token.op close] ++ rest').head? =
        (inner ++ Token.op close :: rest).head? := by
      rw [List.append_assoc]
      exact head?_append_congr inner rfl
    dsimp only
    rw [items?_next (hsame ▸ hclose)]
    exact hagain hcalls hnext (by omega)

/-- One case of `readers`: what comes after an item. -/
private theorem next_succ (hn : Readers n) (close : String) (acc : List Operand) :
    LocalList 9 close (fun bare n ts => next? bare n close ts acc) (n + 1) := by
  intro bare ts c rest h
  dsimp only at h
  rw [next?] at h
  -- After an operand either a comma stands and the list goes on, or the bracket that closes it.
  split at h
  · cases h
  · rename_i a mid hoperand
    obtain ⟨used, rfl, hne, hbalanced, hheeds, hagain⟩ := hn.test hoperand
    have hlength := List.length_pos_iff.mpr hne
    split at h
    · rename_i after
      obtain ⟨inner, rfl, hbalanced', hheeds', hagain'⟩ := hn.items close (a :: acc) true h
      refine ⟨used ++ .op "," :: inner, by simp, hbalanced.append (hbalanced'.cons (by decide)),
        hheeds.append (hheeds'.cons (by simp)) (by simp), fun bare' m rest' hcalls hnext hm => ?_⟩
      simp only [List.length_append, List.length_cons, List.length_nil] at hm
      have hsplit : used ++ .op "," :: inner ++ [.op close] ++ rest' =
          used ++ .op "," :: (inner ++ [.op close] ++ rest') := by simp
      rw [List.append_assoc, List.cons_append] at hcalls
      obtain ⟨m, rfl⟩ : ∃ i, m = i + 1 := ⟨m - 1, by omega⟩
      have hfirst : test? bare' m (used ++ .op "," :: (inner ++ [.op close] ++ rest')) =
          some (a, .op "," :: (inner ++ [.op close] ++ rest')) :=
        hagain hcalls.left rfl (by omega)
      dsimp only
      rw [hsplit, next?_comma hfirst]
      exact hagain' hcalls.right.tail trivial
        (by simp only [List.length_append, List.length_cons, List.length_nil]; omega)
    · rename_i symbol after hcomma
      split at h
      · rename_i hclose
        cases h
        subst hclose
        refine ⟨used, rfl, hbalanced, hheeds, fun bare' m rest' hcalls _ hm => ?_⟩
        rw [List.length_append, List.length_singleton] at hm
        obtain ⟨m, rfl⟩ : ∃ i, m = i + 1 := ⟨m - 1, by omega⟩
        have hfirst : test? bare' m (used ++ .op symbol :: rest') =
            some (a, .op symbol :: rest') := hagain hcalls.left rfl (by omega)
        dsimp only
        rw [List.append_assoc]
        exact next?_close hcomma hfirst
      · cases h
    · cases h

/-! ### Atoms -/

/-- A single token. -/
private theorem repeats_single {t : Token} (ht : weight t = 0)
    (h : ∀ bare n ts, atom? bare (n + 1) (t :: ts) = some (a, ts)) :
    Repeats atom? bare 0 (t :: rest) a rest := by
  refine ⟨[t], rfl, List.cons_ne_nil _ _, balanced_singleton ht, heeds_singleton bare t,
    fun bare' m rest' _ _ hm => ?_⟩
  rw [List.length_singleton] at hm
  obtain ⟨m, rfl⟩ : ∃ i, m = i + 1 := ⟨m - 1, by omega⟩
  exact h bare' m rest'

/-- Items in brackets. -/
private theorem repeats_bracketed (hn : Readers n) {open' close : String}
    {f : List Operand × Bool → Option Operand} (hopen : weight (.op open') = 1)
    (hclose : weight (.op close) = -1)
    (hG : ∀ bare n ts, atom? bare (n + 1) (.op open' :: ts) =
      (items? bare n close ts [] false).bind fun r => (f r.1).map fun a => (a, r.2))
    (h : atom? bare (n + 1) (.op open' :: ts) = some (a, rest)) :
    Repeats atom? bare 0 (.op open' :: ts) a rest := by
  rw [hG] at h
  obtain ⟨⟨args, mid⟩, hitems, hresult⟩ := Option.bind_eq_some_iff.mp h
  obtain ⟨b, hb, hresult⟩ := Option.map_eq_some_iff.mp hresult
  cases hresult
  obtain ⟨inner, rfl, hbalanced, hheeds, hagain⟩ := hn.items close [] false hitems
  have hend : [Token.op close].head? ≠ some (.op "(") := by
    intro h
    cases h
    exact absurd hclose (by decide)
  refine ⟨.op open' :: (inner ++ [.op close]), by simp, List.cons_ne_nil _ _,
    hbalanced.bracket hopen hclose, (hheeds.append (heeds_singleton bare _) hend).cons (by simp),
    fun bare' m rest' hcalls _ hm => ?_⟩
  rw [List.length_cons] at hm
  obtain ⟨m, rfl⟩ : ∃ i, m = i + 1 := ⟨m - 1, by omega⟩
  have hread : items? bare' m close (inner ++ [.op close] ++ rest') [] false =
      some (args, rest') := hagain hcalls.tail trivial (by omega)
  rw [List.cons_append, hG, hread, Option.bind_some, hb]
  rfl

/-- A function with its arguments. -/
private theorem repeats_call (hn : Readers n) {f : String} (hf : f ∉ ["True", "False", "None"])
    (h : atom? bare (n + 1) (.name f :: .op "(" :: ts) = some (a, rest)) :
    Repeats atom? bare 0 (.name f :: .op "(" :: ts) a rest := by
  rw [atom?_call hf] at h
  split at h
  · cases h
  rename_i hbare
  simp only [Bool.or_eq_true, List.contains_iff_mem, not_or] at hbare
  obtain ⟨⟨⟨args, comma⟩, mid⟩, hitems, hresult⟩ := Option.bind_eq_some_iff.mp h
  obtain ⟨g, hg, hresult⟩ := Option.map_eq_some_iff.mp hresult
  cases hresult
  obtain ⟨inner, rfl, hbalanced, hheeds, hagain⟩ := hn.items ")" [] false hitems
  have hclosed : Heeds bare (.op "(" :: (inner ++ [.op ")"])) :=
    (hheeds.append (heeds_singleton bare _) (by decide)).cons (by simp)
  have hcalled : Heeds bare (.name f :: .op "(" :: (inner ++ [.op ")"])) := fun g hg hcalls => by
    rcases calls_cons.mp hcalls with ⟨hname, -⟩ | hcalls
    · cases hname
      exact hbare.2
    · exact hclosed g hg hcalls
  refine ⟨.name f :: .op "(" :: (inner ++ [.op ")"]), by simp, List.cons_ne_nil _ _,
    (hbalanced.bracket (by decide) (by decide)).cons rfl, hcalled,
    fun bare' m rest' hcalls _ hm => ?_⟩
  rw [List.length_cons, List.length_cons] at hm
  obtain ⟨m, rfl⟩ : ∃ i, m = i + 1 := ⟨m - 1, by omega⟩
  have hread : items? bare' m ")" (inner ++ [.op ")"] ++ rest') [] false =
      some ((args, comma), rest') := hagain hcalls.tail.tail trivial (by omega)
  have hcall : Calls (.name f :: .op "(" :: (inner ++ [.op ")"])) f :=
    calls_cons.mpr (.inl ⟨rfl, rfl⟩)
  -- The name is called in the part that both texts share, so the other text may not use it bare.
  have hbare' : ¬(keywords.contains f || bare'.contains f) = true := by
    simp only [Bool.or_eq_true, List.contains_iff_mem, not_or]
    exact ⟨hbare.1, fun hmem => hbare.2 (hcalls f hbare.1 hcall hmem)⟩
  rw [List.cons_append, List.cons_append, atom?_call hf, if_neg hbare', hread, Option.bind_some,
    hg]
  rfl

/-- A name that is not called. -/
private theorem repeats_name {f : String} (hf : f ∉ ["True", "False", "None"])
    (hnext : ts.head? ≠ some (.op "("))
    (h : atom? bare (n + 1) (.name f :: ts) = some (a, rest)) :
    Repeats atom? bare 0 (.name f :: ts) a rest := by
  rw [atom?_name hf hnext] at h
  split at h
  · cases h
  · rename_i hkeyword
    cases h
    refine ⟨[.name f], rfl, List.cons_ne_nil _ _, balanced_singleton rfl, heeds_singleton bare _,
      fun bare' m rest' _ hsame hm => ?_⟩
    rw [List.length_singleton] at hm
    obtain ⟨m, rfl⟩ : ∃ i, m = i + 1 := ⟨m - 1, by omega⟩
    rw [List.singleton_append, atom?_name hf (hsame ▸ hnext), if_neg hkeyword]

private theorem atom_succ (hn : Readers n) : Local 0 atom? (n + 1) := by
  intro bare ts a rest h
  have hresult := h
  unfold atom? at hresult
  split at hresult
  · cases hresult
    exact repeats_single rfl fun _ _ _ => by rw [atom?]
  · cases hresult
    exact repeats_single rfl fun _ _ _ => by rw [atom?]
  · cases hresult
    exact repeats_single rfl fun _ _ _ => by rw [atom?]
  · cases hresult
    exact repeats_single rfl fun _ _ _ => by rw [atom?]
  · cases hresult
    exact repeats_single (by decide) fun _ _ _ => by rw [atom?]
  · cases hresult
    exact repeats_single rfl fun _ _ _ => by rw [atom?]
  · cases hresult
    exact repeats_single rfl fun _ _ _ => by rw [atom?]
  · cases hresult
    exact repeats_single rfl fun _ _ _ => by rw [atom?]
  · -- Names are called, or stand for themselves, unless they are one of the constants above.
    rename_i f ts htrue hfalse hnone
    exact repeats_call hn (by simpa using ⟨htrue, hfalse, hnone⟩) h
  · rename_i f ts htrue hfalse hnone hopen
    refine repeats_name (by simpa using ⟨htrue, hfalse, hnone⟩) (fun hhead => ?_) h
    obtain ⟨us, rfl⟩ := List.head?_eq_some_iff.mp hhead
    exact hopen us rfl
  · -- The three kinds of brackets, each with a list of items in them.
    exact repeats_bracketed hn (by decide) (by decide) atom?_parenthesis h
  · exact repeats_bracketed hn (f := fun _ => some .collection) (by decide) (by decide)
      atom?_square h
  · exact repeats_bracketed hn (f := fun _ => some .collection) (by decide) (by decide)
      atom?_curly h
  · cases hresult

end Readers

/-- **What the functions of the grammar read depends on the tokens that they use.** -/
theorem readers : ∀ n, Readers n
  | 0 => .zero
  | n + 1 =>
    have hn := readers n
    { items := hn.items_succ
      next := hn.next_succ
      test := hn.test_succ
      comparisons := hn.comparisons_succ
      disjunction := hn.disjunction_succ
      disjunctionRest := hn.disjunctionRest_succ
      conjunction := hn.conjunction_succ
      conjunctionRest := hn.conjunctionRest_succ
      sum := hn.sum_succ
      sumRest := hn.sumRest_succ
      product := hn.product_succ
      productRest := hn.productRest_succ
      factor := hn.factor_succ
      powerOf := hn.powerOf_succ
      primary := hn.primary_succ
      atom := hn.atom_succ }

end FluxBalance.Equation.Reader
