import FluxBalance.Equation.Reader
import Mathlib.Data.Option.Basic

/-!
# The rules of the reader

Every function of the grammar looks at the first token, reads what this token begins, and goes on
with the rest. Here is one equation for each way of going on: what a function does in front of a
token, or in front of any other token, as a composition of the functions that it calls.

Operands that are joined by operators are read by loops of one shape. What an operator of a loop
makes of the operands on its two sides is given by its symbol (`logicalJoin`, `scalarJoin`,
`comparisonJoin`).

## Main definitions and results

* `scalarJoin`, `logicalJoin`, `comparisonJoin`: what operators make of operands, by their symbols;
* `disjunction?_eq`, `sum?_eq`, `primary?_eq`: functions of the grammar as compositions of those
  that they call;
* `sumRest?_step`, `sumRest?_stop`: one round of a loop, and its end.
-/

namespace FluxBalance.Equation.Reader

/-- A function that reads something at the front of the tokens. The number bounds its calls. -/
abbrev Reads (β : Type) := List String → Nat → List Token → Option (β × List Token)

variable {bare : List String} {n : Nat} {ts rest : List Token} {a b : Operand}

/-! ### Operands that are joined -/

/-- What `&` and `|` make of two operands. -/
def logical (a b : Operand) : Option Operand :=
  if isLogical a && isLogical b then some .boolean else none

/-- A logical operator by its symbol. -/
def logicalJoin (symbol s : String) : Option (Operand → Operand → Option Operand) :=
  if s = symbol then some logical else none

/-- Operators between scalars by their symbols. -/
def scalarJoin (operator? : String → Option (Formula → Formula → Formula)) (s : String) :
    Option (Operand → Operand → Option Operand) :=
  (operator? s).map onScalars

/-- A comparison by its symbol. -/
def comparisonJoin (s : String) : Option (Operand → Operand → Option Operand) :=
  if isComparison s then some (comparison? s) else none

/-- The loop stops where no operator of disjunctions follows. -/
theorem disjunctionRest?_stop (h : ∀ s, ts.head? = some (.op s) → logicalJoin "|" s = none) :
    disjunctionRest? bare (n + 1) a ts = some (a, ts) := by
  unfold disjunctionRest?
  split
  · cases h "|" rfl
  · rfl

/-- Otherwise `conjunction?` reads the next operand, and the loop goes on. -/
theorem disjunctionRest?_step {s : String} {op : Operand → Operand → Option Operand}
    (h : logicalJoin "|" s = some op) : disjunctionRest? bare (n + 1) a (.op s :: rest) =
      (conjunction? bare n rest).bind fun r =>
        (op a r.1).bind fun c => disjunctionRest? bare n c r.2 := by
  obtain ⟨rfl, rfl⟩ : s = "|" ∧ logical = op := by simpa [logicalJoin] using h
  rw [disjunctionRest?]
  cases conjunction? bare n rest with
  | none => rfl
  | some r =>
    unfold logical
    dsimp only [Option.bind_some]
    split <;> rfl

/-- The loop stops where no operator of conjunctions follows. -/
theorem conjunctionRest?_stop (h : ∀ s, ts.head? = some (.op s) → logicalJoin "&" s = none) :
    conjunctionRest? bare (n + 1) a ts = some (a, ts) := by
  unfold conjunctionRest?
  split
  · cases h "&" rfl
  · rfl

/-- Otherwise `sum?` reads the next operand, and the loop goes on. -/
theorem conjunctionRest?_step {s : String} {op : Operand → Operand → Option Operand}
    (h : logicalJoin "&" s = some op) : conjunctionRest? bare (n + 1) a (.op s :: rest) =
      (sum? bare n rest).bind fun r => (op a r.1).bind fun c => conjunctionRest? bare n c r.2 := by
  obtain ⟨rfl, rfl⟩ : s = "&" ∧ logical = op := by simpa [logicalJoin] using h
  rw [conjunctionRest?]
  cases sum? bare n rest with
  | none => rfl
  | some r =>
    unfold logical
    dsimp only [Option.bind_some]
    split <;> rfl

/-- The loop stops where neither plus nor minus follows. -/
theorem sumRest?_stop (h : ∀ s, ts.head? = some (.op s) → scalarJoin additive? s = none) :
    sumRest? bare (n + 1) a ts = some (a, ts) := by
  unfold sumRest?
  split
  · rw [Option.map_eq_none_iff.mp (h _ rfl)]
  · rfl

/-- Otherwise `product?` reads the next term, and the loop goes on. -/
theorem sumRest?_step {s : String} {op : Operand → Operand → Option Operand}
    (h : scalarJoin additive? s = some op) : sumRest? bare (n + 1) a (.op s :: rest) =
      (product? bare n rest).bind fun r => (op a r.1).bind fun c => sumRest? bare n c r.2 := by
  obtain ⟨f, hf, rfl⟩ := Option.map_eq_some_iff.mp h
  rw [sumRest?, hf]
  cases product? bare n rest with
  | none => rfl
  | some r =>
    cases hc : onScalars f a r.1 with
    | none => simp [hc]
    | some c => simp [hc]

/-- The loop stops where no operator of products follows. -/
theorem productRest?_stop
    (h : ∀ s, ts.head? = some (.op s) → scalarJoin multiplicative? s = none) :
    productRest? bare (n + 1) a ts = some (a, ts) := by
  unfold productRest?
  split
  · rw [Option.map_eq_none_iff.mp (h _ rfl)]
  · rfl

/-- Otherwise `factor?` reads the next factor, and the loop goes on. -/
theorem productRest?_step {s : String} {op : Operand → Operand → Option Operand}
    (h : scalarJoin multiplicative? s = some op) : productRest? bare (n + 1) a (.op s :: rest) =
      (factor? bare n rest).bind fun r => (op a r.1).bind fun c => productRest? bare n c r.2 := by
  obtain ⟨f, hf, rfl⟩ := Option.map_eq_some_iff.mp h
  rw [productRest?, hf]
  cases factor? bare n rest with
  | none => rfl
  | some r =>
    cases hc : onScalars f a r.1 with
    | none => simp [hc]
    | some c => simp [hc]

/-- A comparison with the comparisons that may follow it. -/
def compared (b c : Operand) : Reads Operand := fun bare n ts =>
  match ts with
  | .op s :: _ =>
    if isComparison s then
      if c = .relation true then none
      else (comparisons? bare n b ts).map fun r => (.truth, r.2)
    else some (c, ts)
  | ts => some (c, ts)

/-- What has been compared stands, unless another comparison follows. -/
theorem compared_stop {c : Operand} (h : ∀ s, ts.head? = some (.op s) → isComparison s = false) :
    compared b c bare n ts = some (c, ts) := by
  unfold compared
  split
  · rw [h _ rfl]
    rfl
  · rfl

/-- A comparison that follows makes a chain, in which the first one must be decided. -/
theorem compared_step {c : Operand} {s : String} (hs : isComparison s = true)
    (hts : ts.head? = some (.op s)) : compared b c bare n ts =
      if c = .relation true then none
      else (comparisons? bare n b ts).map fun r => (.truth, r.2) := by
  obtain ⟨ts, rfl⟩ : ∃ us, ts = .op s :: us := List.head?_eq_some_iff.mp hts
  exact if_pos hs

theorem comparisons?_stop (h : ∀ s, ts.head? = some (.op s) → comparisonJoin s = none) :
    comparisons? bare (n + 1) a ts = some (a, ts) := by
  unfold comparisons?
  split
  · rename_i s rest
    have hs := h s rfl
    unfold comparisonJoin at hs
    split at hs
    · cases hs
    · rename_i hcomparison
      rw [if_neg hcomparison]
  · rfl

/-- Otherwise `disjunction?` reads the other side, which is `compared`. -/
theorem comparisons?_step {s : String} {op : Operand → Operand → Option Operand}
    (h : comparisonJoin s = some op) : comparisons? bare (n + 1) a (.op s :: rest) =
      (disjunction? bare n rest).bind fun r =>
        (op a r.1).bind fun c => compared r.1 c bare n r.2 := by
  obtain ⟨hcomparison, rfl⟩ : isComparison s = true ∧ comparison? s = op := by
    simpa [comparisonJoin] using h
  rw [comparisons?, if_pos hcomparison]
  cases disjunction? bare n rest with
  | none => rfl
  | some r =>
    cases hc : comparison? s a r.1 with
    | none => simp [hc]
    | some c =>
      simp only [Option.bind_some, hc]
      rfl

/-! ### The first operand -/

/-- A negation is a test before which `not` stands. -/
theorem test?_not : test? bare (n + 1) (.name "not" :: rest) =
    (test? bare n rest).bind fun r => (negation? r.1).map fun a => (a, r.2) := by
  rw [test?]
  cases test? bare n rest with
  | none => rfl
  | some r => rfl

/-- Any other test is a disjunction with the comparisons that follow. -/
theorem test?_eq (bare : List String) (n : Nat) (ts : List Token)
    (h : ts.head? ≠ some (.name "not")) :
    test? bare (n + 1) ts = (disjunction? bare n ts).bind fun r => comparisons? bare n r.1 r.2 := by
  unfold test?
  split
  · exact absurd rfl h
  · cases disjunction? bare n ts with
    | none => rfl
    | some r => rfl

/-- A disjunction is a conjunction with the loop that follows. -/
theorem disjunction?_eq (bare : List String) (n : Nat) (ts : List Token) :
    disjunction? bare (n + 1) ts =
      (conjunction? bare n ts).bind fun r => disjunctionRest? bare n r.1 r.2 := by
  rw [disjunction?]
  cases conjunction? bare n ts with
  | none => rfl
  | some r => rfl

/-- A conjunction is a sum with the loop that follows. -/
theorem conjunction?_eq (bare : List String) (n : Nat) (ts : List Token) :
    conjunction? bare (n + 1) ts =
      (sum? bare n ts).bind fun r => conjunctionRest? bare n r.1 r.2 := by
  rw [conjunction?]
  cases sum? bare n ts with
  | none => rfl
  | some r => rfl

theorem sum?_eq (bare : List String) (n : Nat) (ts : List Token) :
    sum? bare (n + 1) ts = (product? bare n ts).bind fun r => sumRest? bare n r.1 r.2 := by
  rw [sum?]
  cases product? bare n ts with
  | none => rfl
  | some r => rfl

theorem product?_eq (bare : List String) (n : Nat) (ts : List Token) :
    product? bare (n + 1) ts = (factor? bare n ts).bind fun r => productRest? bare n r.1 r.2 := by
  rw [product?]
  cases factor? bare n ts with
  | none => rfl
  | some r => rfl

/-! ### Signs and powers -/

/-- The signs that may stand before an operand. -/
def isSign (s : String) : Bool := s = "+" || s = "-" || s = "~"

theorem factor?_sign {s : String} (h : isSign s = true) :
    factor? bare (n + 1) (.op s :: rest) =
      (factor? bare n rest).bind fun r => (signed? s r.1).map fun a => (a, r.2) := by
  have hsign : s = "+" ∨ s = "-" ∨ s = "~" := by simpa [isSign, or_assoc] using h
  rw [factor?, if_pos hsign]
  cases factor? bare n rest with
  | none => rfl
  | some r => rfl

theorem factor?_powerOf (h : ∀ s, ts.head? = some (.op s) → isSign s = false) :
    factor? bare (n + 1) ts = powerOf? bare n ts := by
  unfold factor?
  split
  · rename_i s rest
    have hs := h s rfl
    rw [if_neg]
    simpa [isSign, and_assoc] using hs
  · rfl

/-- The symbols of powers. -/
def isPower (s : String) : Bool := s = "**" || s = "^"

theorem isPower_iff {s : String} : isPower s = true ↔ s = "**" ∨ s = "^" := by simp [isPower]

/-- A base with the exponent that may follow it. -/
def powered (a : Operand) : Reads Operand := fun bare n ts =>
  match ts with
  | .op s :: after =>
    if isPower s then
      (factor? bare n after).bind fun r => (onScalars .pow a r.1).map fun c => (c, r.2)
    else some (a, ts)
  | ts => some (a, ts)

theorem powered_stop (h : ∀ s, ts.head? = some (.op s) → isPower s = false) :
    powered a bare n ts = some (a, ts) := by
  unfold powered
  split
  · rw [h _ rfl]
    rfl
  · rfl

theorem powered_step {s : String} (h : isPower s = true) : powered a bare n (.op s :: rest) =
    (factor? bare n rest).bind fun r => (onScalars .pow a r.1).map fun c => (c, r.2) :=
  if_pos h

theorem powerOf?_eq (bare : List String) (n : Nat) (ts : List Token) :
    powerOf? bare (n + 1) ts = (primary? bare n ts).bind fun r => powered r.1 bare n r.2 := by
  rw [powerOf?]
  cases primary? bare n ts with
  | none => rfl
  | some r =>
    obtain ⟨a, rest⟩ := r
    cases rest with
    | nil => rfl
    | cons t after =>
      cases t with
      | op s =>
        change (if s = "**" ∨ s = "^" then _ else _) = if isPower s = true then _ else _
        simp only [isPower_iff]
        split
        · cases factor? bare n after with
          | none => rfl
          | some r => rfl
        · rfl
      | _ => rfl

/-! ### Factorial marks -/

/-- A primary is an atom with the factorials that follow. -/
theorem primary?_eq (bare : List String) (n : Nat) (ts : List Token) :
    primary? bare (n + 1) ts = (atom? bare n ts).bind fun r => factorials? r.1 r.2 := by
  rw [primary?]
  cases atom? bare n ts with
  | none => rfl
  | some r => rfl

/-- Without a factorial mark after it the operand stays as it is. -/
theorem factorials?_stop (h : ts.head? ≠ some (.op "!")) : factorials? a ts = some (a, ts) := by
  unfold factorials?
  split <;> first | exact absurd rfl h | rfl

theorem factorials?_once {f : Formula} (h : ts.head? ≠ some (.op "!")) :
    factorials? (.scalar f) (.op "!" :: ts) = some (.scalar (.factorial f), ts) := by
  rw [factorials?]
  · rintro rest rfl
    exact h rfl
  · rintro rest rfl
    exact h rfl

theorem factorials?_twice {f : Formula} (h : ts.head? ≠ some (.op "!")) :
    factorials? (.scalar f) (.op "!" :: .op "!" :: ts) =
      some (.scalar (.doubleFactorial f), ts) := by
  rw [factorials?]
  rintro rest rfl
  exact h rfl

theorem factorials?_of_not_scalar (h : ∀ f, a ≠ .scalar f) :
    factorials? a (.op "!" :: ts) = none := by
  unfold factorials?
  split
  · rfl
  · exact absurd rfl (h _)
  · exact absurd rfl (h _)
  · rfl
  · rename_i hmark _ _
    exact (hmark _ rfl).elim

/-! ### Atoms -/

/-- A name before a parenthesis is called, unless it is reserved or stands alone elsewhere. -/
theorem atom?_call {f : String} (hf : f ∉ ["True", "False", "None"]) :
    atom? bare (n + 1) (.name f :: .op "(" :: rest) =
      if keywords.contains f || bare.contains f then none
      else
        (items? bare n ")" rest [] false).bind fun r =>
          (applied? (.function f) r.1.1).map fun g => (.scalar g, r.2) := by
  simp only [List.mem_cons, List.not_mem_nil, or_false, not_or] at hf
  obtain ⟨htrue, hfalse, hnone⟩ := hf
  rw [atom?]
  · cases items? bare n ")" rest [] false with
    | none => rfl
    | some r => rfl
  exacts [htrue, hfalse, hnone]

theorem atom?_name {f : String} (hf : f ∉ ["True", "False", "None"])
    (h : rest.head? ≠ some (.op "(")) :
    atom? bare (n + 1) (.name f :: rest) =
      if keywords.contains f then none else some (.scalar (.name f), rest) := by
  simp only [List.mem_cons, List.not_mem_nil, or_false, not_or] at hf
  obtain ⟨htrue, hfalse, hnone⟩ := hf
  have hopen : ∀ after, rest = .op "(" :: after → False := by
    rintro after rfl
    exact h rfl
  rw [atom?]
  exacts [htrue, hfalse, hnone, hopen]

/-- What stands in parentheses: an operand alone, or a collection. -/
def grouped : List Operand × Bool → Option Operand
  | ([a], false) => some a
  | _ => some .collection

theorem atom?_parenthesis (bare : List String) (n : Nat) (ts : List Token) :
    atom? bare (n + 1) (.op "(" :: ts) =
      (items? bare n ")" ts [] false).bind fun r => (grouped r.1).map fun a => (a, r.2) := by
  rw [atom?]
  cases items? bare n ")" ts [] false with
  | none => rfl
  | some r =>
    obtain ⟨⟨args, comma⟩, rest⟩ := r
    cases args with
    | nil => rfl
    | cons a args =>
      cases args with
      | nil => cases comma <;> rfl
      | cons b args => rfl

theorem atom?_square (bare : List String) (n : Nat) (ts : List Token) :
    atom? bare (n + 1) (.op "[" :: ts) =
      (items? bare n "]" ts [] false).bind fun r => (some .collection).map fun a => (a, r.2) := by
  rw [atom?]
  cases items? bare n "]" ts [] false with
  | none => rfl
  | some r => rfl

theorem atom?_curly (bare : List String) (n : Nat) (ts : List Token) :
    atom? bare (n + 1) (.op "\x7b" :: ts) =
      (items? bare n "\x7d" ts [] false).bind fun r =>
        (some .collection).map fun a => (a, r.2) := by
  rw [atom?]
  cases items? bare n "\x7d" ts [] false with
  | none => rfl
  | some r => rfl

/-! ### Items of a list -/

/-- The list of items ends at the bracket that closes. -/
theorem items?_close {close : String} {acc : List Operand} {comma : Bool} :
    items? bare (n + 1) close (.op close :: rest) acc comma =
      some ((acc.reverse, comma), rest) := by
  rw [items?, if_pos rfl]

theorem items?_next {close : String} {acc : List Operand} {comma : Bool}
    (h : ts.head? ≠ some (.op close)) :
    items? bare (n + 1) close ts acc comma = next? bare n close ts acc := by
  unfold items?
  split
  · rename_i s rest
    rw [if_neg]
    rintro rfl
    exact h rfl
  · rfl

theorem next?_comma {close : String} {acc : List Operand}
    (h : test? bare n ts = some (a, .op "," :: rest)) :
    next? bare (n + 1) close ts acc = items? bare n close rest (a :: acc) true := by
  rw [next?, h]
  rfl

/-- Without a comma it ends at the bracket that closes. -/
theorem next?_close {close : String} {acc : List Operand} (hclose : close ≠ ",")
    (h : test? bare n ts = some (a, .op close :: rest)) :
    next? bare (n + 1) close ts acc = some (((a :: acc).reverse, !acc.isEmpty), rest) := by
  rw [next?, h]
  dsimp only
  split
  · rename_i heq
    cases heq
    exact absurd rfl hclose
  · rename_i heq
    cases heq
    exact if_pos rfl
  · rename_i hother
    exact (hother _ _ rfl).elim

end FluxBalance.Equation.Reader
