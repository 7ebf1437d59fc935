/-!
# Rounding exact quotients

Rounding a quotient of natural numbers to a nearest integer, with ties to the even neighbour,
and the binary and decimal magnitudes of a rational number. Both the doubles of
`FluxBalance.Number.Binary` and the decimal texts of `FluxBalance.Number.Decimal` are built on
these three functions.
-/

namespace FluxBalance.Number

/-! ### Nearest integers -/

/-- The integer nearest to `num / den`; of two equally near ones, the even one. -/
def roundDiv (num den : Nat) : Nat :=
  let q := num / den
  let r := num % den
  if 2 * r < den then q
  else if den < 2 * r then q + 1
  else if q % 2 = 0 then q else q + 1

/-- A quotient without remainder is its own nearest integer. -/
theorem roundDiv_mul_left (q : Nat) {den : Nat} (h : 0 < den) : roundDiv (q * den) den = q := by
  simp [roundDiv, Nat.mul_div_cancel q h, h]

/-- The nearest integer is at most half a unit too large. -/
theorem roundDiv_mul_le (num : Nat) {den : Nat} (h : 0 < den) :
    2 * (roundDiv num den * den) ≤ 2 * num + den := by
  have hq := Nat.div_add_mod num den
  have hr := Nat.mod_lt num h
  rw [Nat.mul_comm] at hq
  simp only [roundDiv]
  split
  · omega
  · split
    · rw [Nat.add_mul]; omega
    · split
      · omega
      · rw [Nat.add_mul]; omega

/-- The nearest integer is at most half a unit too small. -/
theorem le_roundDiv_mul (num : Nat) {den : Nat} (h : 0 < den) :
    2 * num ≤ 2 * (roundDiv num den * den) + den := by
  have hq := Nat.div_add_mod num den
  have hr := Nat.mod_lt num h
  rw [Nat.mul_comm] at hq
  simp only [roundDiv]
  split
  · omega
  · split
    · rw [Nat.add_mul]; omega
    · split
      · omega
      · rw [Nat.add_mul]; omega

/-- Half-way between two integers the even one is taken. -/
theorem roundDiv_even_of_tie {num den : Nat} (h : 2 * (num % den) = den) :
    roundDiv num den % 2 = 0 := by
  simp only [roundDiv, h, Nat.lt_irrefl, if_false]
  split <;> omega

/-! ### Scaling by a signed power -/

/-- The number `num / den · base ^ e` as a quotient of natural numbers. -/
def scaleQuotient (num den base : Nat) (e : Int) : Nat × Nat :=
  match e with
  | .ofNat k => (num * Nat.pow base k, den)
  | .negSucc k => (num, den * Nat.pow base (k + 1))

/-- The integer nearest to `num / den · base ^ e`. -/
def roundScaled (num den base : Nat) (e : Int) : Nat :=
  let (n, d) := scaleQuotient num den base e
  roundDiv n d

/-- The value `m · base ^ e`. -/
def scaled (m base : Nat) (e : Int) : Rat :=
  match e with
  | .ofNat k => ((m * Nat.pow base k : Nat) : Rat)
  | .negSucc k => mkRat m (Nat.pow base (k + 1))

/-! ### Magnitudes -/

/-- Whether `base ^ e ≤ num / den`. -/
def powLe (base : Nat) (e : Int) (num den : Nat) : Bool :=
  match e with
  | .ofNat k => Nat.pow base k * den ≤ num
  | .negSucc k => den ≤ num * Nat.pow base (k + 1)

/-- The largest `e` with `2 ^ e ≤ num / den`, for positive `num` and `den`. -/
def floorLog2 (num den : Nat) : Int :=
  let e : Int := (Nat.log2 num : Int) - (Nat.log2 den : Int)
  if powLe 2 e num den then e else e - 1

/-- The largest `e` with `10 ^ e ≤ num / den`, for positive `num` and `den`. The binary
magnitude gives it up to one, as `30103 / 100000` is `log₁₀ 2` to five places; two more steps
in each direction keep the rule right for numbers of tens of thousands of digits. -/
def floorLog10 (num den : Nat) : Int :=
  let e := floorLog2 num den * 30103 / 100000
  if powLe 10 (e + 2) num den then e + 2
  else if powLe 10 (e + 1) num den then e + 1
  else if powLe 10 e num den then e
  else if powLe 10 (e - 1) num den then e - 1
  else e - 2

end FluxBalance.Number
