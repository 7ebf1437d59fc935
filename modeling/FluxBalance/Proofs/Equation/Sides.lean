import FluxBalance.Proofs.Equation.Reading

/-!
# The difference of two texts in parentheses

The two sides of an equation are put in parentheses with a minus between them. If the brackets of
each side are closed in it, the tokens read as a difference, and each side as it reads on its own,
whatever stands on the other side. The only thing that one side can do to the other is to use a name
alone that the other one calls.

## Main definitions and results

* `difference`: the tokens of a difference of two texts in parentheses;
* `Compatible`: no name that one text calls stands alone in the other one;
* `read?_difference`: the difference is read as the difference of what the texts are read as.
-/

namespace FluxBalance.Equation.Reader

variable {bare bare' : List String} {n : Nat} {ts us rest : List Token} {f : Formula}

/-! ### One text in parentheses -/

/-- What some tokens mean in parentheses. -/
def inParens (bare : List String) (n : Nat) (ts rest : List Token) : Option Operand :=
  (items? bare n ")" (ts ++ .op ")" :: rest) [] false).bind fun r => grouped r.1

/-- Reading in parentheses ends at the first parenthesis that closes none of the tokens. -/
private theorem atom?_parens (hts : Balanced ts) :
    atom? bare (n + 1) (.op "(" :: (ts ++ .op ")" :: rest)) =
      (inParens bare n ts rest).map fun a => (a, rest) := by
  rw [atom?_parenthesis, inParens]
  cases h : items? bare n ")" (ts ++ .op ")" :: rest) [] false with
  | none => rfl
  | some r =>
    obtain ⟨args, mid⟩ := r
    obtain ⟨inner, hsame, hbalanced, -⟩ := (readers n).items ")" [] false h
    obtain rfl : ts = inner := hts.eq_of_append hbalanced (by decide) (by decide) hsame
    obtain rfl : rest = mid := by simpa using hsame
    rfl

/-- After parentheses comes a minus or another closing parenthesis. -/
def Ends (rest : List Token) : Prop :=
  rest.head? = some (.op "-") ∨ rest.head? = some (.op ")")

private theorem Ends.stops {p : String → Prop} (h : Ends rest) (hminus : p "-") (hclose : p ")") :
    ∀ s, rest.head? = some (.op s) → p s := by
  intro s hs
  rcases h with h | h
  · rw [h] at hs
    cases hs
    exact hminus
  · rw [h] at hs
    cases hs
    exact hclose

/-- A product that begins with a parenthesis is what stands in it, if nothing goes on after it. -/
private theorem product?_parens (hts : Balanced ts) (hrest : Ends rest) :
    product? bare (n + 5) (.op "(" :: (ts ++ .op ")" :: rest)) =
      (inParens bare n ts rest).map fun a => (a, rest) := by
  have hfactorials : rest.head? ≠ some (.op "!") := fun h =>
    hrest.stops (p := fun s => s ≠ "!") (by decide) (by decide) "!" h rfl
  rw [product?_eq, factor?_powerOf fun s hs => by cases hs; decide, powerOf?_eq, primary?_eq,
    atom?_parens hts]
  cases inParens bare n ts rest with
  | none => rfl
  | some a =>
    simp only [Option.map_some, Option.bind_some]
    rw [factorials?_stop hfactorials, Option.bind_some,
      powered_stop (hrest.stops rfl rfl), Option.bind_some,
      productRest?_stop (hrest.stops rfl rfl)]

/-- A sum that is followed by a closing parenthesis is an operand alone. -/
theorem items?_of_sum {x : Option Operand} (hclose : ts.head? ≠ some (.op ")"))
    (hnot : ts.head? ≠ some (.name "not"))
    (h : sum? bare (n + 1) ts = x.map fun c => (c, .op ")" :: rest)) :
    items? bare (n + 6) ")" ts [] false = x.map fun c => (([c], false), rest) := by
  rw [items?_next hclose]
  have htest : test? bare (n + 4) ts = x.map fun c => (c, .op ")" :: rest) := by
    rw [test?_eq _ _ _ hnot, disjunction?_eq, conjunction?_eq, h]
    cases x with
    | none => rfl
    | some c =>
      simp only [Option.map_some, Option.bind_some]
      rw [conjunctionRest?_stop fun s hs => by cases hs; rfl, Option.bind_some,
        disjunctionRest?_stop fun s hs => by cases hs; rfl, Option.bind_some,
        comparisons?_stop fun s hs => by cases hs; rfl]
  cases x with
  | none => rw [next?, htest]; rfl
  | some c => exact next?_close (by decide) htest

/-! ### A difference of texts in parentheses -/

/-- The tokens of a difference of two texts in parentheses. -/
def difference (ts us : List Token) : List Token :=
  .op "(" :: (ts ++ .op ")" :: .op "-" :: .op "(" :: (us ++ [.op ")"]))

theorem difference_eq (ts us : List Token) : difference ts us =
    .op "(" :: (ts ++ [.op ")"]) ++ .op "-" :: (.op "(" :: (us ++ [.op ")"])) := by
  simp [difference]

/-- What follows the first text of a difference, up to the closing parenthesis of the whole. -/
def afterFirst (us : List Token) : List Token :=
  .op "-" :: .op "(" :: (us ++ .op ")" :: [.op ")"])

/-- The tokens of a `difference`, up to what comes after the first side. -/
private theorem difference_append (ts us : List Token) : difference ts us ++ [.op ")"] =
    .op "(" :: (ts ++ .op ")" :: afterFirst us) := by
  simp [difference, afterFirst]

/-- A `difference` is read as the difference of what is read in its parentheses. -/
private theorem sum?_difference (hts : Balanced ts) (hus : Balanced us) :
    sum? bare (n + 7) (difference ts us ++ [.op ")"]) =
      (inParens bare (n + 1) ts (afterFirst us)).bind fun a =>
        (inParens bare n us [.op ")"]).bind fun b =>
          (onScalars .sub a b).map fun c => (c, [.op ")"]) := by
  rw [difference_append, sum?_eq, product?_parens hts (.inl rfl)]
  cases inParens bare (n + 1) ts (afterFirst us) with
  | none => rfl
  | some a =>
    rw [Option.map_some, Option.bind_some, Option.bind_some]
    dsimp only
    rw [afterFirst, sumRest?_step (show scalarJoin additive? "-" = some (onScalars .sub) from rfl),
      product?_parens hus (.inr rfl)]
    cases inParens bare n us [.op ")"] with
    | none => rfl
    | some b =>
      rw [Option.map_some, Option.bind_some, Option.bind_some]
      dsimp only
      cases onScalars .sub a b with
      | none => rfl
      | some c =>
        rw [Option.bind_some, Option.map_some]
        exact sumRest?_stop fun s hs => by cases hs; rfl

/-- The difference of two texts in parentheses, read up to a closing parenthesis. -/
private theorem items?_difference (hts : Balanced ts) (hus : Balanced us) :
    items? bare (n + 12) ")" (difference ts us ++ [.op ")"]) [] false =
      (inParens bare (n + 1) ts (afterFirst us)).bind fun a =>
        (inParens bare n us [.op ")"]).bind fun b =>
          (onScalars .sub a b).map fun c => (([c], false), []) := by
  have hsum : sum? bare (n + 6 + 1) (difference ts us ++ [.op ")"]) =
      ((inParens bare (n + 1) ts (afterFirst us)).bind fun a =>
        (inParens bare n us [.op ")"]).bind fun b => onScalars .sub a b).map
          fun c => (c, [.op ")"]) := by
    rw [sum?_difference hts hus]
    simp only [Option.map_bind, Function.comp_def]
  rw [items?_of_sum (by simp [difference]) (by simp [difference]) hsum]
  simp only [Option.map_bind, Function.comp_def]

/-! ### Each side on its own -/

/-- A scalar in parentheses is a single item without a comma. -/
private theorem grouped_eq_scalar {r : List Operand × Bool} :
    grouped r = some (.scalar f) ↔ r = ([.scalar f], false) := by
  unfold grouped
  split
  · simp
  · rename_i hsingle
    constructor
    · intro h
      cases h
    · rintro rfl
      exact (hsingle _ rfl).elim

/-- What is read in parentheses as a scalar is a single item. -/
theorem inParens_eq_scalar (hts : Balanced ts) : inParens bare n ts rest = some (.scalar f) ↔
    items? bare n ")" (ts ++ .op ")" :: rest) [] false = some (([.scalar f], false), rest) := by
  rw [inParens]
  constructor
  · intro h
    obtain ⟨⟨r, mid⟩, hitems, hgrouped⟩ := Option.bind_eq_some_iff.mp h
    obtain ⟨inner, hsame, hbalanced, -⟩ := (readers n).items ")" [] false hitems
    obtain rfl : ts = inner := hts.eq_of_append hbalanced (by decide) (by decide) hsame
    obtain rfl : rest = mid := by simpa using hsame
    rw [hitems, (grouped_eq_scalar.mp hgrouped : r = _)]
  · intro h
    rw [h]
    rfl

/-- What tokens mean in parentheses does not depend on what follows. -/
private theorem inParens_again (hts : Balanced ts)
    (h : inParens bare n ts rest = some (.scalar f)) :
    Heeds bare ts ∧ ∀ bare' m rest', NoWider bare' bare ts → 16 * ts.length + 32 ≤ m →
      inParens bare' m ts rest' = some (.scalar f) := by
  have hitems := (inParens_eq_scalar hts).mp h
  obtain ⟨inner, hsame, hbalanced, hheeds, hagain⟩ := (readers n).items ")" [] false hitems
  obtain rfl : ts = inner := hts.eq_of_append hbalanced (by decide) (by decide) hsame
  refine ⟨hheeds, fun bare' m rest' hcalls hm => (inParens_eq_scalar hts).mpr ?_⟩
  have hread : items? bare' m ")" (ts ++ [.op ")"] ++ rest') [] false =
      some (([.scalar f], false), rest') := by
    refine hagain (fun g hg hcall => hcalls g hg ?_) trivial (by simp; omega)
    exact ((calls_append (by decide)).mp hcall).resolve_right (not_calls_singleton _ g)
  rwa [List.append_assoc] at hread

/-- Reading tokens is reading them in parentheses, with fuel for all of them. -/
private theorem read?_eq_scalar (hts : Balanced ts) : read? bare ts = some (.scalar f) ↔
    inParens bare (16 * ts.length + 32) ts [] = some (.scalar f) := by
  rw [inParens_eq_scalar hts]
  unfold read?
  split
  · rename_i a hitems
    rw [hitems]
    simp
  · rename_i hsingle hitems
    rw [hitems]
    constructor
    · intro h
      cases h
    · intro h
      cases h
      exact (hsingle rfl rfl).elim
  · rename_i hsingle hmany
    constructor
    · intro h
      cases h
    · intro h
      exact (hsingle _ h).elim

/-- What is read in parentheses with some fuel is read with the fuel of `read?`. -/
theorem read?_of_inParens {m : Nat} (hts : Balanced ts)
    (h : inParens bare m ts rest = some (.scalar f))
    (hbare : NoWider bare' bare ts) : read? bare' ts = some (.scalar f) :=
  (read?_eq_scalar hts).mpr ((inParens_again hts h).2 _ _ _ hbare (Nat.le_refl _))

/-- No name that one text calls stands alone in the other one. -/
def Compatible (ts us : List Token) (bareT bareU : List String) : Prop :=
  ∀ g, g ∉ keywords → (Calls ts g → g ∉ bareU) ∧ (Calls us g → g ∉ bareT)

/-- A `difference` of balanced sides is `Balanced`. -/
private theorem balanced_difference (hts : Balanced ts) (hus : Balanced us) :
    Balanced (difference ts us) := by
  rw [difference_eq]
  exact (hts.bracket (by decide) (by decide)).append
    ((hus.bracket (by decide) (by decide)).cons (by decide))

/-- In parentheses, too, a `difference` is read as the difference of its sides. -/
private theorem inParens_difference (hts : Balanced ts) (hus : Balanced us) :
    inParens bare (n + 12) (difference ts us) [] =
      (inParens bare (n + 1) ts (afterFirst us)).bind fun a =>
        (inParens bare n us [.op ")"]).bind fun b => onScalars .sub a b := by
  rw [inParens, items?_difference hts hus]
  cases inParens bare (n + 1) ts (afterFirst us) with
  | none => rfl
  | some a =>
    cases inParens bare n us [.op ")"] with
    | none => rfl
    | some b =>
      rw [Option.bind_some, Option.bind_some, Option.bind_some, Option.bind_some]
      cases onScalars .sub a b <;> rfl

/-- **The difference of two texts in parentheses is read as the difference of what they read on
their own**, unless one calls a name that stands alone in the other. -/
theorem read?_difference {bareT bareU : List String} (hts : Balanced ts) (hus : Balanced us) :
    read? (bareT ++ bareU) (difference ts us) = some (.scalar f) ↔
      ∃ a b, f = .sub a b ∧ read? bareT ts = some (.scalar a) ∧ read? bareU us = some (.scalar b) ∧
        Compatible ts us bareT bareU := by
  -- The reader has depth to spare for the parentheses around both sides.
  have hlength : 16 * (difference ts us).length + 32 =
      (16 * (ts.length + us.length) + 100) + 12 := by
    simp only [difference, List.length_cons, List.length_append, List.length_nil]
    omega
  rw [read?_eq_scalar (balanced_difference hts hus), hlength, inParens_difference hts hus]
  constructor
  · intro h
    obtain ⟨x, hx, hrest⟩ := Option.bind_eq_some_iff.mp h
    obtain ⟨y, hy, hsub⟩ := Option.bind_eq_some_iff.mp hrest
    unfold onScalars at hsub
    split at hsub
    · rename_i a b
      cases hsub
      have hheedsT := (inParens_again hts hx).1
      have hheedsU := (inParens_again hus hy).1
      refine ⟨a, b, rfl, read?_of_inParens hts hx fun g _ _ => List.mem_append_left _,
        read?_of_inParens hus hy fun g _ _ => List.mem_append_right _, fun g hg => ⟨?_, ?_⟩⟩
      · exact fun hcall hmem => hheedsT g hg hcall (List.mem_append_right _ hmem)
      · exact fun hcall hmem => hheedsU g hg hcall (List.mem_append_left _ hmem)
    · cases hsub
  · rintro ⟨a, b, rfl, ha, hb, hcompatible⟩
    have hx := (inParens_again hts ((read?_eq_scalar hts).mp ha)).2 (bareT ++ bareU)
      (16 * (ts.length + us.length) + 100 + 1) (afterFirst us)
      (fun g hg hcall hmem => (List.mem_append.mp hmem).resolve_right ((hcompatible g hg).1 hcall))
      (by omega)
    have hy := (inParens_again hus ((read?_eq_scalar hus).mp hb)).2 (bareT ++ bareU)
      (16 * (ts.length + us.length) + 100) [.op ")"]
      (fun g hg hcall hmem => (List.mem_append.mp hmem).resolve_left ((hcompatible g hg).2 hcall))
      (by omega)
    rw [hx, hy]
    rfl

end FluxBalance.Equation.Reader
