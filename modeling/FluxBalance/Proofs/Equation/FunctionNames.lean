import FluxBalance.Proofs.Computation
import FluxBalance.Proofs.Equation.ProductNames
import FluxBalance.Equation.Function
import Mathlib.Data.Nat.Init

/-!
# Functions introduce no names

What functions make of their arguments is put together of parts of the arguments, so no name
comes up in it that does not occur in an argument.

## Main definitions and results

* `namesIn_applyFn`, `namesIn_function`: applying a function introduces no names;
* `namesIn_extreme`: neither does taking a maximum or a minimum.
-/

namespace FluxBalance.Equation.Expr

variable {S : String → Prop} {a b e : Expr Constant} {es : List (Expr Constant)}
  {rules : DecimalRules}

/-! ### Roots and quotients -/

private theorem namesIn_sqrt (h : NamesIn S a) : NamesIn S (sqrt rules a) :=
  namesIn_power h (namesIn_const _)

private theorem namesIn_quotient (ha : NamesIn S a) (hb : NamesIn S b) :
    NamesIn S (quotient rules a b) :=
  namesIn_product (namesIn_pair ha (namesIn_power hb (namesIn_const _)))

private theorem namesIn_oneAndSquare {c : Constant} (h : NamesIn S a) :
    NamesIn S (oneAndSquare rules c a) :=
  namesIn_sum (namesIn_pair (namesIn_const _)
    (namesIn_product (namesIn_pair (namesIn_const _) (namesIn_power h (namesIn_const _)))))

/-- The distance of a point from the origin. -/
private theorem namesIn_distance (ha : NamesIn S a) (hb : NamesIn S b) :
    NamesIn S (sqrt rules (sum rules.round
      [power rules a (const (.exact 2)), power rules b (const (.exact 2))])) :=
  namesIn_sqrt (namesIn_sum (namesIn_pair (namesIn_power ha (namesIn_const _))
    (namesIn_power hb (namesIn_const _))))

/-! ### Odd and even functions -/

section

variable {f : Expr Constant → Expr Constant} (hf : ∀ {a}, NamesIn S a → NamesIn S (f a))

include hf

private theorem namesIn_odd (h : NamesIn S a) : NamesIn S (odd f a) := by
  unfold odd
  split
  · exact namesIn_negated (hf (namesIn_negated h))
  · exact hf h

private theorem namesIn_even (h : NamesIn S a) : NamesIn S (even f a) := by
  unfold even
  split
  · exact hf (namesIn_negated h)
  · exact hf h

end

private theorem namesIn_sinOf (h : NamesIn S a) : NamesIn S (sinOf rules a) := by
  unfold sinOf
  split
  · exact namesIn_apply.mp h
  · exact namesIn_quotient (namesIn_apply.mp h)
      (namesIn_sqrt (namesIn_oneAndSquare (namesIn_apply.mp h)))
  · exact namesIn_sqrt (namesIn_oneAndSquare (namesIn_apply.mp h))
  · obtain ⟨hy, hx⟩ := namesIn_apply₂.mp h
    exact namesIn_quotient hy (namesIn_distance hx hy)
  · exact namesIn_apply.mpr h

private theorem namesIn_cosOf (h : NamesIn S a) : NamesIn S (cosOf rules a) := by
  unfold cosOf
  split
  · exact namesIn_apply.mp h
  · exact namesIn_quotient (namesIn_const _)
      (namesIn_sqrt (namesIn_oneAndSquare (namesIn_apply.mp h)))
  · exact namesIn_sqrt (namesIn_oneAndSquare (namesIn_apply.mp h))
  · obtain ⟨hy, hx⟩ := namesIn_apply₂.mp h
    exact namesIn_quotient hx (namesIn_distance hx hy)
  · exact namesIn_apply.mpr h

private theorem namesIn_tanOf (h : NamesIn S a) : NamesIn S (tanOf rules a) := by
  unfold tanOf
  split
  · exact namesIn_apply.mp h
  · exact namesIn_quotient (namesIn_apply.mp h)
      (namesIn_sqrt (namesIn_oneAndSquare (namesIn_apply.mp h)))
  · exact namesIn_quotient (namesIn_sqrt (namesIn_oneAndSquare (namesIn_apply.mp h)))
      (namesIn_apply.mp h)
  · obtain ⟨hy, hx⟩ := namesIn_apply₂.mp h
    exact namesIn_quotient hy hx
  · exact namesIn_apply.mpr h

/-! ### Logarithms -/

private theorem namesIn_logarithmOf (h : NamesIn S a) : NamesIn S (logarithmOf rules a) := by
  have hlog : NamesIn S (apply .log a) := namesIn_apply.mpr h
  unfold logarithmOf
  split
  · split
    · exact namesIn_const _
    split
    · exact namesIn_const _
    split
    · exact namesIn_negated (namesIn_apply.mpr (namesIn_const _))
    · exact hlog
  · split
    · exact namesIn_const _
    dsimp only
    split
    · exact namesIn_const _
    · refine namesIn_sum (namesIn_pair (namesIn_const _) (namesIn_product ?_))
      exact namesIn_pair (namesIn_const _) (namesIn_pow.mpr ⟨namesIn_const _, namesIn_const _⟩)
  · exact namesIn_const _
  · exact namesIn_const _
  · split
    · exact namesIn_apply.mp h
    · exact hlog
  · exact hlog

/-! ### Magnitudes -/

private theorem namesIn_closedMagnitude? {m : Expr Constant}
    (hm : closedMagnitude? rules a = some m) : NamesIn S m := by
  unfold closedMagnitude? at hm
  split at hm
  · rename_i hclosed
    have ha : NamesIn S a := namesIn_of_isClosed hclosed
    split at hm
    · split at hm
      · cases hm
        split
        · exact namesIn_negated ha
        · exact ha
      · cases hm
    · cases hm
      exact namesIn_const _
    · cases hm
  · cases hm

private theorem namesIn_knownMagnitude? {m : Expr Constant} (h : NamesIn S a)
    (hm : knownMagnitude? rules a = some m) : NamesIn S m := by
  unfold knownMagnitude? at hm
  split at hm
  · cases hm
    exact namesIn_const _
  · split at hm
    · cases hm
      exact namesIn_const _
    · exact namesIn_closedMagnitude? hm
  · split at hm
    · rename_i hclosed
      cases hm
      exact namesIn_closedMagnitude? hclosed
    · split at hm
      · cases hm
        exact namesIn_exponentialOf (namesIn_applied.mpr ⟨namesIn_unknown _, namesIn_apply.mp h⟩)
      · cases hm
      · obtain ⟨hbase, hexponent⟩ := namesIn_pow.mp h
        split at hm
        · cases hm
          split
          · exact h
          · exact namesIn_power hbase (namesIn_applied.mpr ⟨namesIn_unknown _, hexponent⟩)
        · cases hm
      · split at hm
        · cases hm
          exact h
        · cases hm

section

variable {ps : List (Expr Constant × Option (Expr Constant))}
  (h : ∀ p ∈ ps, NamesIn S p.1 ∧ ∀ r, p.2 = some r → NamesIn S r)

include h

private theorem namesIn_knownParts : ∀ e ∈ ps.filterMap (·.2), NamesIn S e := by
  intro e he
  obtain ⟨p, hp, heq⟩ := List.mem_filterMap.mp he
  exact (h p hp).2 e heq

/-- The parts whose magnitude is not known add no names. -/
private theorem namesIn_unknownParts :
    ∀ e ∈ ps.filterMap fun p => if p.2.isNone then some p.1 else none, NamesIn S e := by
  intro e he
  obtain ⟨⟨f, r⟩, hp, heq⟩ := List.mem_filterMap.mp he
  dsimp only at heq
  split at heq
  · cases heq
    exact (h _ hp).1
  · cases heq

end

private theorem namesIn_magnitudeOfFactors (h : NamesIn S a) :
    NamesIn S (magnitudeOfFactors rules a) := by
  unfold magnitudeOfFactors
  extract_lets parts known rest unknown inner
  -- Each factor comes with its magnitude, if that is known.
  have hparts : ∀ p ∈ parts, NamesIn S p.1 ∧ ∀ m, p.2 = some m → NamesIn S m := by
    intro p hp
    obtain ⟨f, hf, rfl⟩ := List.mem_map.mp hp
    have hf := namesIn_of_factors h f hf
    split
    · split
      · refine ⟨hf, fun m hm => ?_⟩
        obtain ⟨k, hk, rfl⟩ := Option.map_eq_some_iff.mp hm
        exact namesIn_power (namesIn_knownMagnitude? (namesIn_pow.mp hf).1 hk) (namesIn_const _)
      · exact ⟨hf, fun m hm => namesIn_knownMagnitude? hf hm⟩
    · exact ⟨hf, fun m hm => namesIn_knownMagnitude? hf hm⟩
  have hknown : ∀ e ∈ known, NamesIn S e := namesIn_knownParts hparts
  have hrest : ∀ e ∈ rest, NamesIn S e := namesIn_unknownParts hparts
  have hunknown : NamesIn S unknown := namesIn_product hrest
  have hinner : NamesIn S inner := by
    unfold inner
    clear_value unknown
    split
    · exact hunknown
    · split
      · exact namesIn_apply.mpr (namesIn_negated hunknown)
      · exact namesIn_apply.mpr hunknown
  clear_value inner unknown rest
  split
  · exact namesIn_product hknown
  · exact namesIn_product
      (List.forall_mem_append.mpr ⟨hknown, List.forall_mem_singleton.mpr hinner⟩)

private theorem namesIn_magnitude (h : NamesIn S a) : NamesIn S (magnitude rules a) := by
  have hfactors := namesIn_of_factors h
  unfold magnitude
  split
  · exact h
  dsimp only
  split
  · refine namesIn_quotient (namesIn_magnitudeOfFactors (namesIn_product fun e he =>
      hfactors e (List.mem_filter.mp he).1)) (namesIn_magnitudeOfFactors (namesIn_product ?_))
    intro e he
    obtain ⟨f, hf, rfl⟩ := List.mem_map.mp he
    exact namesIn_power (hfactors f (List.mem_filter.mp hf).1) (namesIn_const _)
  · exact namesIn_magnitudeOfFactors h

private theorem namesIn_signOf (h : NamesIn S a) : NamesIn S (signOf rules a) := by
  unfold signOf
  extract_lets signs known rest number
  have hsigns : ∀ p ∈ signs, NamesIn S p.1 := by
    intro p hp
    obtain ⟨f, hf, rfl⟩ := List.mem_map.mp hp
    have hf := namesIn_of_factors h f hf
    repeat' split
    all_goals exact hf
  -- The factors without a known sign are factors of the argument.
  have hrest : ∀ e ∈ rest, NamesIn S e := by
    intro e he
    obtain ⟨⟨f, s⟩, hp, hs⟩ := List.mem_filterMap.mp he
    dsimp only at hs
    split at hs
    · cases hs
      exact hsigns _ hp
    · cases hs
  clear_value rest
  split
  · exact namesIn_const _
  · exact namesIn_product (namesIn_pair (namesIn_const _) (hrest _ List.mem_cons_self))
  · exact namesIn_product (namesIn_pair (namesIn_const _)
      (namesIn_apply.mpr (namesIn_nestProduct (namesIn_const _) hrest)))

/-! ### Roundings -/

private theorem namesIn_integerTerm? {m : Expr Constant} (h : NamesIn S a)
    (hm : integerTerm? a = some m) : NamesIn S m := by
  unfold integerTerm? at hm
  split at hm
  · split at hm
    · split at hm
      · cases hm
        exact namesIn_const _
      · cases hm
    · cases hm
  · dsimp only at hm
    split at hm
    · cases hm
      exact h
    · cases hm
      exact h
    · cases hm

private theorem namesIn_rounding {f : Fn} (h : NamesIn S a) : NamesIn S (rounding rules f a) := by
  -- Terms that are integers are taken out of the rounding.
  have hparts : ∀ p ∈ a.addends.map fun t => (t, integerTerm? t),
      NamesIn S p.1 ∧ ∀ m, p.2 = some m → NamesIn S m := by
    intro p hp
    obtain ⟨t, ht, rfl⟩ := List.mem_map.mp hp
    have ht := namesIn_of_addends h t ht
    exact ⟨ht, fun m hm => namesIn_integerTerm? ht hm⟩
  have hwhole := namesIn_knownParts hparts
  have hrest := namesIn_unknownParts hparts
  unfold rounding
  split
  · exact namesIn_const _
  · exact namesIn_const _
  · exact namesIn_const _
  · dsimp only
    split
    · exact namesIn_sum hwhole
    · refine namesIn_sum (List.forall_mem_append.mpr ⟨hwhole, List.forall_mem_singleton.mpr ?_⟩)
      split
      · exact namesIn_const _
      · exact namesIn_apply.mpr (namesIn_sum hrest)

/-! ### Functions of one argument -/

private theorem namesIn_applyFn {f : Fn} (h : NamesIn S a) : NamesIn S (applyFn rules f a) := by
  have happly {g : Fn} {d : Expr Constant} (hd : NamesIn S d) : NamesIn S (apply g d) :=
    namesIn_apply.mpr hd
  unfold applyFn
  repeat' split
  all_goals first
    | exact namesIn_const _
    | exact happly h
    | exact namesIn_exponentialOf h
    | exact namesIn_logarithmOf h
    | exact namesIn_magnitude h
    | exact namesIn_signOf h
    | exact namesIn_rounding h
    | exact namesIn_odd namesIn_sinOf h
    | exact namesIn_even namesIn_cosOf h
    | exact namesIn_odd namesIn_tanOf h
    | exact namesIn_odd happly h
    | exact namesIn_even happly h

theorem namesIn_function {f : Fn} (h : NamesIn S a) : NamesIn S (function rules f a) := by
  unfold function
  split
  · split
    · exact namesIn_const _
    · exact namesIn_applyFn h
  · exact namesIn_applyFn h

/-! ### Functions of two arguments -/

theorem namesIn_remainder {r : Expr Constant} (ha : NamesIn S a) (hb : NamesIn S b)
    (h : remainder rules a b = .ok r) : NamesIn S r := by
  have hgeneral {p : Expr Constant} (hp : NamesIn S p) :
      NamesIn S (remainder.general rules b p) := by
    unfold remainder.general
    split <;> split
    all_goals first
      | exact namesIn_const _
      | exact namesIn_apply₂.mpr ⟨hp, hb⟩
  unfold remainder at h
  split at h
  · split at h
    · cases h
    · split at h
      · split at h <;> cases h <;> exact namesIn_const _
      · cases h
        split
        · exact namesIn_const _
        · exact hgeneral ha
  · split at h
    · split at h
      · cases h
        exact namesIn_const _
      · split at h <;> cases h
        · exact namesIn_const _
        · exact hgeneral ha
    · cases h
      exact hgeneral ha

theorem namesIn_angle (ha : NamesIn S a) (hb : NamesIn S b) : NamesIn S (angle rules a b) := by
  have hatan : NamesIn S (apply₂ .atan2 a b) := namesIn_apply₂.mpr ⟨ha, hb⟩
  unfold angle
  split
  · split
    · split
      · exact namesIn_const _
      · split
        · exact namesIn_const _
        · exact hatan
    · exact namesIn_const _
  · exact hatan

/-- The parts of an extreme have no names but its own. -/
private theorem namesIn_extremeParts {f : Fn₂} :
    ∀ {e : Expr Constant}, NamesIn S e → ∀ p ∈ extremeParts f e, NamesIn S p
  | apply₂ g a b, h, p, hp => by
    unfold extremeParts at hp
    split at hp
    · obtain ⟨ha, hb⟩ := namesIn_apply₂.mp h
      rcases List.mem_append.mp hp with hp | hp
      · exact namesIn_extremeParts ha p hp
      · exact namesIn_extremeParts hb p hp
    · rwa [List.mem_singleton.mp hp]
  | const _, h, p, hp | var _, h, p, hp | add .., h, p, hp | mul .., h, p, hp
  | pow .., h, p, hp | apply .., h, p, hp | unknown _, h, p, hp | applied .., h, p, hp => by
    rwa [List.mem_singleton.mp hp]

/-- The best of the numbers, if there are numbers. -/
private theorem namesIn_best {better : Expr Constant × Rat → Expr Constant × Rat → Bool}
    {ns : List (Expr Constant × Rat)} (h : ∀ n ∈ ns, NamesIn S n.1) :
    ∀ e ∈ (match ns with
      | [] => []
      | first :: rest => [(rest.foldl (fun b p => if better b p then p else b) first).1]),
      NamesIn S e := by
  have key : ∀ (rest : List (Expr Constant × Rat)) (best : Expr Constant × Rat),
      NamesIn S best.1 → (∀ n ∈ rest, NamesIn S n.1) →
      NamesIn S (rest.foldl (fun b p => if better b p then p else b) best).1 := by
    intro rest
    induction rest with
    | nil => exact fun _ hbest _ => hbest
    | cons n rest ih =>
      intro best hbest hrest
      obtain ⟨hn, hrest⟩ := List.forall_mem_cons.mp hrest
      refine ih _ ?_ hrest
      dsimp only
      split
      · exact hn
      · exact hbest
  cases ns with
  | nil => simp
  | cons first rest =>
    obtain ⟨hfirst, hrest⟩ := List.forall_mem_cons.mp h
    exact List.forall_mem_singleton.mpr (key rest first hfirst hrest)

theorem namesIn_extreme {f : Fn₂} {r : Expr Constant} (hes : ∀ e ∈ es, NamesIn S e)
    (h : extreme f es = .ok r) : NamesIn S r := by
  have hparts : ∀ p ∈ (es.flatMap (extremeParts f)).eraseDups, NamesIn S p := by
    intro p hp
    obtain ⟨e, he, hp⟩ := List.mem_flatMap.mp (List.mem_eraseDups.mp hp)
    exact namesIn_extremeParts (hes e he) p hp
  unfold extreme at h
  dsimp only at h
  split at h
  · cases h
    exact namesIn_const _
  · obtain ⟨values, hvalues, h⟩ := except_bind_eq_ok.mp h
    have hfirst : ∀ v ∈ values, NamesIn S v.1 := by
      intro v hv
      obtain ⟨p, hp, hpv⟩ := exists_of_mem_of_except_mapM hvalues v hv
      split at hpv <;> cases hpv
      exact hparts p (List.mem_filter.mp hp).1
    -- The numbers among the arguments are compared, the other arguments stay as they are.
    have hnumbers : ∀ q ∈ values.filterMap fun p => p.2.map fun q => (p.1, q),
        NamesIn S q.1 := by
      intro q hq
      obtain ⟨p, hp, hpq⟩ := List.mem_filterMap.mp hq
      obtain ⟨x, -, rfl⟩ := Option.map_eq_some_iff.mp hpq
      exact hfirst p hp
    have hothers : ∀ q ∈ arrange (values.filterMap fun p => if p.2.isNone then some p.1 else none),
        NamesIn S q := by
      refine namesIn_of_mem_arrange fun q hq => ?_
      obtain ⟨p, hp, hpq⟩ := List.mem_filterMap.mp hq
      split at hpq
      · cases hpq
        exact hfirst p hp
      · cases hpq
    split at h
    · cases h
      exact namesIn_const _
    · rename_i a rest hparts
      cases h
      have hall : ∀ e ∈ a :: rest, NamesIn S e := by
        rw [← hparts]
        exact List.forall_mem_append.mpr ⟨namesIn_best hnumbers, hothers⟩
      obtain ⟨ha, hrest⟩ := List.forall_mem_cons.mp hall
      exact namesIn_foldl (fun hb hc => namesIn_apply₂.mpr ⟨hb, hc⟩) ha hrest

end FluxBalance.Equation.Expr
