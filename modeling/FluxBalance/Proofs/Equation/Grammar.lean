import FluxBalance.Proofs.Equation.Sides

/-!
# Texts of arithmetic formulas

`Derives` is the usual grammar of arithmetic: sums and differences of products and quotients of
factors, which are powers with signs before them, and atoms, which are numbers, names and sums in
parentheses. `read?_of_derives` says that the reader accepts what the grammar derives, and reads the
formula that the grammar gives.

The reader looks at the first token after an operand to see how the formula goes on. So by induction
on the derivation an operand is read in front of any rest that does not go on with an operator that
binds more tightly. Sums and products associate to the left and are read in a loop; for these the
induction says that the reader comes to the end of the operand and goes on from there.

## Main definitions and results

* `Derives`: the grammar of arithmetic, at each `Level`;
* `Accepts`: the reader reads a formula from some tokens, whatever comes after them;
* `accepts_of_derives`, `read?_of_derives`: what the grammar derives is read as its formula.
-/

namespace FluxBalance.Equation

/-- The levels of the grammar, from the loosest operators to the tightest. -/
inductive Level where
  | sum
  | product
  | factor
  | power
  | atom

/-- The tokens that are derived at a level of the grammar, and their formulas. -/
inductive Derives : Level → List Token → Formula → Prop
  | integer (n : Nat) : Derives .atom [.integer n] (.integer n)
  | decimal (m : Nat) (e : Int) : Derives .atom [.decimal m e] (.decimal m e)
  | name {x : String} (hx : x ∉ keywords) (hx' : x ∉ ["True", "False", "None"]) :
    Derives .atom [.name x] (.name x)
  | parentheses {ts : List Token} {a : Formula} (h : Derives .sum ts a) :
    Derives .atom (.op "(" :: (ts ++ [.op ")"])) a
  | ofAtom {ts : List Token} {a : Formula} (h : Derives .atom ts a) : Derives .power ts a
  | pow {s : String} {ts us : List Token} {a b : Formula} (hs : s = "**" ∨ s = "^")
    (ha : Derives .atom ts a) (hb : Derives .factor us b) :
    Derives .power (ts ++ .op s :: us) (.pow a b)
  | ofPower {ts : List Token} {a : Formula} (h : Derives .power ts a) : Derives .factor ts a
  | plus {ts : List Token} {a : Formula} (h : Derives .factor ts a) :
    Derives .factor (.op "+" :: ts) a
  | neg {ts : List Token} {a : Formula} (h : Derives .factor ts a) :
    Derives .factor (.op "-" :: ts) (.neg a)
  | ofFactor {ts : List Token} {a : Formula} (h : Derives .factor ts a) : Derives .product ts a
  | mul {ts us : List Token} {a b : Formula} (ha : Derives .product ts a)
    (hb : Derives .factor us b) : Derives .product (ts ++ .op "*" :: us) (.mul a b)
  | div {ts us : List Token} {a b : Formula} (ha : Derives .product ts a)
    (hb : Derives .factor us b) : Derives .product (ts ++ .op "/" :: us) (.div a b)
  | ofProduct {ts : List Token} {a : Formula} (h : Derives .product ts a) : Derives .sum ts a
  | add {ts us : List Token} {a b : Formula} (ha : Derives .sum ts a)
    (hb : Derives .product us b) : Derives .sum (ts ++ .op "+" :: us) (.add a b)
  | sub {ts us : List Token} {a b : Formula} (ha : Derives .sum ts a)
    (hb : Derives .product us b) : Derives .sum (ts ++ .op "-" :: us) (.sub a b)

namespace Reader

/-! ### Results at any depth that is large enough -/

/-- A function of the depth has the value from some depth on. -/
def Settles {β : Type} (F : Nat → β) (b : β) : Prop := ∃ N, ∀ n, N ≤ n → F n = b

variable {β γ : Type} {F G : Nat → β} {b : β}

theorem Settles.const (b : β) : Settles (fun _ => b) b := ⟨0, fun _ _ => rfl⟩

theorem Settles.succ (h : Settles F b) (hG : ∀ n, G (n + 1) = F n) : Settles G b := by
  obtain ⟨N, hN⟩ := h
  refine ⟨N + 1, fun n hn => ?_⟩
  obtain ⟨n, rfl⟩ : ∃ k, n = k + 1 := ⟨n - 1, by omega⟩
  rw [hG, hN n (by omega)]

theorem Settles.bind {F : Nat → Option β} {H : β → Nat → Option γ} {r : Option γ}
    (h : Settles F (some b)) (h' : Settles (H b) r) :
    Settles (fun n => (F n).bind fun c => H c n) r := by
  obtain ⟨N, hN⟩ := h
  obtain ⟨M, hM⟩ := h'
  refine ⟨max N M, fun n hn => ?_⟩
  dsimp only
  rw [hN n (by omega), Option.bind_some, hM n (by omega)]

/-! ### What is read in front of a rest -/

/-- The rest begins with one of the symbols, if it does not end. -/
def Begins (symbols : List String) (rest : List Token) : Prop :=
  ∀ t, rest.head? = some t → ∃ s ∈ symbols, t = .op s

variable {bare : List String} {ts us rest : List Token} {a f : Formula}

theorem Begins.op {symbols : List String} {s : String} (h : s ∈ symbols) :
    Begins symbols (.op s :: rest) := fun t ht => ⟨s, h, by cases ht; rfl⟩

theorem Begins.mono {symbols symbols' : List String} (h : Begins symbols rest)
    (hsub : symbols ⊆ symbols') : Begins symbols' rest := fun t ht => by
  obtain ⟨s, hs, rfl⟩ := h t ht
  exact ⟨s, hsub hs, rfl⟩

/-- What no symbol has that the rest can begin with, it does not have. -/
private theorem Begins.not_of {symbols : List String} (h : Begins symbols rest) {p : String → Prop}
    (hp : ∀ s ∈ symbols, p s) : ∀ s, rest.head? = some (.op s) → p s := fun s hs => by
  obtain ⟨s', hs', hsame⟩ := h _ hs
  cases hsame
  exact hp s hs'

/-- The symbols that may follow a sum, a product or a factor, and an atom. -/
def afterSum : List String := [")", "+", "-"]

def afterFactor : List String := [")", "+", "-", "*", "/"]

def afterAtom : List String := [")", "+", "-", "*", "/", "**", "^"]

/-- The reader reads the formula from the tokens at a level, whatever comes after them. -/
def Accepts (bare : List String) : Level → List Token → Formula → Prop
  | .sum, ts, f => ∀ rest r, Begins afterSum rest →
    Settles (fun n => sumRest? bare n (.scalar f) rest) r →
      Settles (fun n => sum? bare n (ts ++ rest)) r
  | .product, ts, f => ∀ rest r, Begins afterFactor rest →
    Settles (fun n => productRest? bare n (.scalar f) rest) r →
      Settles (fun n => product? bare n (ts ++ rest)) r
  | .factor, ts, f => ∀ rest, Begins afterFactor rest →
    Settles (fun n => factor? bare n (ts ++ rest)) (some (.scalar f, rest))
  | .power, ts, f => ∀ rest, Begins afterFactor rest →
    Settles (fun n => powerOf? bare n (ts ++ rest)) (some (.scalar f, rest))
  | .atom, ts, f => ∀ rest, Begins afterAtom rest →
    Settles (fun n => atom? bare n (ts ++ rest)) (some (.scalar f, rest))

/-- Whether a token can begin what is derived at a level. -/
def Starts (l : Level) : Token → Prop
  | .integer _ | .decimal .. => True
  | .name x => x ∉ keywords
  | .op s => s = "(" ∨ (l ≠ .power ∧ l ≠ .atom ∧ (s = "+" ∨ s = "-"))
  | _ => False

/-- What starts a power or an atom starts every other level. -/
theorem Starts.mono {l l' : Level} {t : Token} (h : Starts l t) (hl : l = .power ∨ l = .atom ∨
    (l' ≠ .power ∧ l' ≠ .atom)) : Starts l' t := by
  cases t with
  | op s =>
    rcases h with h | ⟨hpower, hatom, hsign⟩
    · exact .inl h
    · rcases hl with hl | hl | hl
      · exact absurd hl hpower
      · exact absurd hl hatom
      · exact .inr ⟨hl.1, hl.2, hsign⟩
  | _ => exact h

/-- What `Derives` a formula begins with a token that `Starts` its level. -/
theorem starts_of_derives {l : Level} (h : Derives l ts f) :
    ∃ t us, ts = t :: us ∧ Starts l t := by
  induction h with
  | integer n => exact ⟨_, _, rfl, trivial⟩
  | decimal m e => exact ⟨_, _, rfl, trivial⟩
  | name hx => exact ⟨_, _, rfl, hx⟩
  | parentheses h ih => exact ⟨_, _, rfl, .inl rfl⟩
  | plus h ih => exact ⟨_, _, rfl, .inr ⟨nofun, nofun, .inl rfl⟩⟩
  | neg h ih => exact ⟨_, _, rfl, .inr ⟨nofun, nofun, .inr rfl⟩⟩
  | ofAtom h ih =>
    obtain ⟨t, us, rfl, ht⟩ := ih
    exact ⟨t, us, rfl, ht.mono (.inr (.inl rfl))⟩
  | ofPower h ih =>
    obtain ⟨t, us, rfl, ht⟩ := ih
    exact ⟨t, us, rfl, ht.mono (.inl rfl)⟩
  | ofFactor h ih | ofProduct h ih =>
    obtain ⟨t, us, rfl, ht⟩ := ih
    exact ⟨t, us, rfl, ht.mono (.inr (.inr ⟨nofun, nofun⟩))⟩
  | pow hs ha hb iha ihb =>
    obtain ⟨t, us, rfl, ht⟩ := iha
    exact ⟨t, _, rfl, ht.mono (.inr (.inl rfl))⟩
  | mul ha hb iha ihb | div ha hb iha ihb | add ha hb iha ihb | sub ha hb iha ihb =>
    obtain ⟨t, us, rfl, ht⟩ := iha
    exact ⟨t, _, rfl, ht⟩

/-! ### The levels of the grammar -/

/-- A loop over operators goes on with the next operand and what the operator makes of it. -/
private theorem settles_joined {F : Nat → Option (Operand × List Token)}
    {R : Operand → Nat → List Token → Option (Operand × List Token)} {b : Formula}
    {op : Formula → Formula → Formula} {r : Option (Operand × List Token)}
    (hb : Settles F (some (.scalar b, rest)))
    (hr : Settles (fun n => R (.scalar (op a b)) n rest) r) :
    Settles (fun n => (F n).bind fun c => (onScalars op (.scalar a) c.1).bind fun d =>
      R d n c.2) r := by
  obtain ⟨N, hN⟩ := hb
  obtain ⟨M, hM⟩ := hr
  refine ⟨max N M, fun n hn => ?_⟩
  dsimp only
  rw [hN n (by omega)]
  exact hM n (by omega)

private theorem accepts_join_sum {op : Formula → Formula → Formula} {s : String} {b : Formula}
    (hs : scalarJoin additive? s = some (onScalars op)) (hmem : s ∈ afterSum)
    (ha : Accepts bare .sum ts a) (hb : Accepts bare .product us b) :
    Accepts bare .sum (ts ++ .op s :: us) (op a b) := by
  intro rest r hrest hr
  rw [List.append_assoc]
  refine ha (.op s :: (us ++ rest)) r (.op hmem) ?_
  have hterm : Settles (fun n => product? bare n (us ++ rest)) (some (.scalar b, rest)) :=
    hb rest _ (hrest.mono (by decide))
      ((Settles.const _).succ fun n => productRest?_stop (hrest.not_of (by decide)))
  exact (settles_joined (R := fun d n ts => sumRest? bare n d ts) hterm hr).succ fun n =>
    sumRest?_step hs

private theorem accepts_join_product {op : Formula → Formula → Formula} {s : String} {b : Formula}
    (hs : scalarJoin multiplicative? s = some (onScalars op)) (hmem : s ∈ afterFactor)
    (ha : Accepts bare .product ts a) (hb : Accepts bare .factor us b) :
    Accepts bare .product (ts ++ .op s :: us) (op a b) := by
  intro rest r hrest hr
  rw [List.append_assoc]
  refine ha (.op s :: (us ++ rest)) r (.op hmem) ?_
  exact (settles_joined (R := fun d n ts => productRest? bare n d ts) (hb rest hrest) hr).succ
    fun n => productRest?_step hs

private theorem accepts_sign {g : Formula} {s : String} (hs : isSign s = true)
    (hg : signed? s (.scalar a) = some (.scalar g)) (ha : Accepts bare .factor ts a) :
    Accepts bare .factor (.op s :: ts) g := by
  intro rest hrest
  refine (Settles.bind (H := fun c _ => (signed? s c.1).map fun a => (a, c.2)) (ha rest hrest)
    ?_).succ fun n => factor?_sign hs
  dsimp only
  rw [hg]
  exact .const _

/-- An operand without anything that binds more tightly after it is a power. -/
private theorem accepts_power_of_atom (ha : Accepts bare .atom ts a) :
    Accepts bare .power ts a := by
  intro rest hrest
  have hprimary : Settles (fun n => primary? bare n (ts ++ rest)) (some (.scalar a, rest)) := by
    refine (Settles.bind (H := fun c _ => factorials? c.1 c.2)
      (ha rest (hrest.mono (by decide))) ?_).succ fun n => primary?_eq _ _ _
    dsimp only
    rw [factorials?_stop fun h => hrest.not_of (p := (· ≠ "!")) (by decide) "!" h rfl]
    exact .const _
  refine (Settles.bind (H := fun c n => powered c.1 bare n c.2) hprimary ?_).succ
    fun n => powerOf?_eq _ _ _
  exact ⟨0, fun n _ => powered_stop (hrest.not_of (by decide))⟩

/-- A power is read after its base, and its exponent is a `factor`. -/
private theorem accepts_pow {s : String} {b : Formula} (hs : s = "**" ∨ s = "^")
    (ha : Accepts bare .atom ts a) (hb : Accepts bare .factor us b) :
    Accepts bare .power (ts ++ .op s :: us) (.pow a b) := by
  intro rest hrest
  rw [List.append_assoc]
  have hmem : s ∈ afterAtom := by
    rcases hs with rfl | rfl <;> decide
  have hprimary : Settles (fun n => primary? bare n (ts ++ .op s :: (us ++ rest)))
      (some (.scalar a, .op s :: (us ++ rest))) := by
    refine (Settles.bind (H := fun c _ => factorials? c.1 c.2) (ha _ (.op hmem)) ?_).succ
      fun n => primary?_eq _ _ _
    dsimp only
    rw [factorials?_stop]
    · exact .const _
    · intro hmark
      obtain rfl : s = "!" := Token.op.inj (Option.some.inj hmark)
      exact absurd hs (by decide)
  refine (Settles.bind (H := fun c n => powered c.1 bare n c.2) hprimary ?_).succ
    fun n => powerOf?_eq _ _ _
  have hexponent := Settles.bind (H := fun c _ => (onScalars .pow (.scalar a) c.1).map
    fun d => (d, c.2)) (hb rest hrest) (Settles.const _)
  obtain ⟨N, hN⟩ := hexponent
  exact ⟨N, fun n hn => (powered_step (isPower_iff.mpr hs)).trans (hN n hn)⟩

/-- What a sum is read as in front of a closing parenthesis, if it begins as formulas do. -/
private theorem settles_items {t : Token} (ht : Starts .sum t)
    (ha : Accepts bare .sum (t :: ts) a) (rest : List Token) :
    Settles (fun n => items? bare n ")" (t :: ts ++ .op ")" :: rest) [] false)
      (some (([.scalar a], false), rest)) := by
  have hsum : Settles (fun n => sum? bare n (t :: ts ++ .op ")" :: rest))
      (some (.scalar a, .op ")" :: rest)) :=
    ha _ _ (.op (by decide)) ((Settles.const _).succ fun n =>
      sumRest?_stop fun s hs => by cases hs; rfl)
  obtain ⟨N, hN⟩ := hsum
  refine ⟨N + 6, fun n hn => ?_⟩
  obtain ⟨n, rfl⟩ : ∃ k, n = k + 6 := ⟨n - 6, by omega⟩
  refine items?_of_sum (x := some (.scalar a)) ?_ ?_ (hN (n + 1) (by omega))
  · intro hclose
    cases hclose
    rcases ht with h | ⟨-, -, h⟩ <;> exact absurd h (by decide)
  · intro hnot
    cases hnot
    exact ht (by decide)

private theorem accepts_parentheses {t : Token} (ht : Starts .sum t)
    (ha : Accepts bare .sum (t :: ts) a) :
    Accepts bare .atom (.op "(" :: (t :: ts ++ [.op ")"])) a := by
  intro rest _
  have hlist : .op "(" :: (t :: ts ++ [.op ")"]) ++ rest =
      .op "(" :: (t :: ts ++ .op ")" :: rest) := by simp
  rw [hlist]
  refine (Settles.bind (H := fun c _ => (grouped c.1).map fun a => (a, c.2))
    (settles_items ht ha rest) ?_).succ fun n => atom?_parenthesis _ _ _
  exact .const _

private theorem accepts_name {x : String} (hx : x ∉ keywords)
    (hx' : x ∉ ["True", "False", "None"]) : Accepts bare .atom [.name x] (.name x) := by
  intro rest hrest
  refine (Settles.const _).succ fun n => (atom?_name hx' ?_).trans ?_
  · exact fun h => hrest.not_of (p := (· ≠ "(")) (by decide) "(" h rfl
  · rw [if_neg fun h => hx (List.contains_iff_mem.mp h)]
    rfl

/-- **The reader accepts at every level what the grammar `Derives` there.** -/
theorem accepts_of_derives {l : Level} (h : Derives l ts f) : Accepts bare l ts f := by
  -- The induction is on the derivation; what comes after a level begins with a token that ends it.
  induction h with
  | integer n =>
    exact fun rest _ => (Settles.const _).succ fun n => by rw [List.singleton_append, atom?]
  | decimal m e =>
    exact fun rest _ => (Settles.const _).succ fun n => by rw [List.singleton_append, atom?]
  | name hx hx' => exact accepts_name hx hx'
  | parentheses h ih =>
    obtain ⟨t, us, rfl, ht⟩ := starts_of_derives h
    exact accepts_parentheses ht ih
  | ofAtom h ih => exact accepts_power_of_atom ih
  | pow hs ha hb iha ihb => exact accepts_pow hs iha ihb
  | ofPower h ih =>
    intro rest hrest
    obtain ⟨t, us, rfl, ht⟩ := starts_of_derives h
    refine (ih rest hrest).succ fun n => factor?_powerOf fun s hs => ?_
    cases hs
    rcases ht with rfl | ⟨hpower, -⟩
    · rfl
    · exact absurd rfl hpower
  | plus h ih => exact accepts_sign rfl rfl ih
  | neg h ih => exact accepts_sign rfl rfl ih
  | ofFactor h ih =>
    intro rest r hrest hr
    exact (Settles.bind (H := fun c n => productRest? bare n c.1 c.2) (ih rest hrest) hr).succ
      fun n => product?_eq _ _ _
  | mul ha hb iha ihb => exact accepts_join_product rfl (by decide) iha ihb
  | div ha hb iha ihb => exact accepts_join_product rfl (by decide) iha ihb
  | ofProduct h ih =>
    intro rest r hrest hr
    have hterm := ih rest _ (hrest.mono (by decide))
      ((Settles.const _).succ fun n => productRest?_stop (hrest.not_of (by decide)))
    exact (Settles.bind (H := fun c n => sumRest? bare n c.1 c.2) hterm hr).succ
      fun n => sum?_eq _ _ _
  | add ha hb iha ihb => exact accepts_join_sum rfl (by decide) iha ihb
  | sub ha hb iha ihb => exact accepts_join_sum rfl (by decide) iha ihb

/-- **What the grammar `Derives` is read as its formula.** -/
theorem read?_of_derives (h : Derives .sum ts f) : read? bare ts = some (.scalar f) := by
  obtain ⟨t, us, hts, ht⟩ := starts_of_derives h
  have haccepts : Accepts bare .sum ts f := accepts_of_derives h
  rw [hts] at haccepts
  obtain ⟨N, hN⟩ := settles_items ht haccepts []
  have hitems := hN N (Nat.le_refl N)
  rw [← hts] at hitems
  obtain ⟨inner, hsame, hbalanced, -⟩ := (readers N).items ")" [] false hitems
  obtain rfl : ts = inner := List.append_cancel_right hsame
  exact read?_of_inParens hbalanced ((inParens_eq_scalar hbalanced).mpr hitems)
    fun g _ _ hmem => hmem

end Reader

end FluxBalance.Equation
