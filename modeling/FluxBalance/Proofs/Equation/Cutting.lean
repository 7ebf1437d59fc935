import FluxBalance.Proofs.Equation.Brackets
import FluxBalance.Proofs.Equation.Pieces

/-!
# Texts that are cut into tokens on their own

A text is self-contained if its brackets are closed in it and there are no comments, quotes and
unusual blanks in it. Such a text is cut into the same tokens wherever it stands, as long as a blank
or a closing parenthesis comes after it. It may stand one level deeper, too, unless its brackets are
nested as deeply as they may be.

Cutting goes on token by token. `step?` is one round of it, `step?_append` says that a round does
not see what comes after the text, and `step?_keeps` says that the rest of the text is again one of
this kind. By induction on the length the tokens of such a text, and their balance, follow.

## Main definitions and results

* `isSelfContained`: the texts that can be put in parentheses;
* `step?`, `tokens?`: one round of cutting, and all of them, at a depth of parentheses;
* `step?_append`, `step?_keeps`, `tokens?_append`: a round does not see what comes after the text,
  and so cutting does not.
-/

namespace FluxBalance.Equation

/-! ### Depths -/

namespace Reader

/-- Tokens lead from one depth of brackets to another, and not below zero on the way. -/
structure Leads (d : ℤ) (ts : List Token) (e : ℤ) : Prop where
  depth_eq : e = d + depth ts
  nonneg : ∀ n, 0 ≤ d + depth (ts.take n)

variable {d e f : ℤ} {ts us : List Token}

/-- Tokens put together lead from depth to depth, one after the other. -/
theorem Leads.append (h : Leads d ts e) (h' : Leads e us f) : Leads d (ts ++ us) f := by
  refine ⟨?_, fun n => ?_⟩
  · rw [depth_append, ← add_assoc, ← h.depth_eq, h'.depth_eq]
  · rw [List.take_append, depth_append]
    have hts := h.nonneg n
    have hus := h'.nonneg (n - ts.length)
    rcases Nat.le_total n ts.length with hn | hn
    · rw [Nat.sub_eq_zero_of_le hn]
      exact (Int.add_zero _).symm ▸ hts
    · rw [List.take_of_length_le hn, ← add_assoc, ← h.depth_eq]
      exact hus

private theorem depth_eq_zero (h : ∀ t ∈ ts, weight t = 0) : depth ts = 0 := by
  induction ts with
  | nil => rfl
  | cons t ts ih =>
    obtain ⟨ht, hts⟩ := List.forall_mem_cons.mp h
    rw [depth_cons, ht, ih hts, Int.add_zero]

/-- Tokens without brackets lead back to the same depth. -/
private theorem Leads.of_weights (hd : 0 ≤ d) (h : ∀ t ∈ ts, weight t = 0) : Leads d ts d := by
  refine ⟨by rw [depth_eq_zero h, add_zero], fun n => ?_⟩
  rw [depth_eq_zero fun t ht => h t (List.mem_of_mem_take ht), add_zero]
  exact hd

/-- A bracket `Leads` to the depth that its `weight` changes. -/
theorem Leads.singleton {t : Token} (hd : 0 ≤ d) (ht : 0 ≤ d + weight t) :
    Leads d [t] (d + weight t) := by
  refine ⟨by rw [depth_singleton], fun n => ?_⟩
  have := depth_take_singleton t n
  omega

/-- Tokens that lead from depth zero to depth zero are `Balanced`. -/
theorem Leads.balanced (h : Leads 0 ts 0) : Balanced ts := by
  refine ⟨?_, fun n => ?_⟩
  · have := h.depth_eq
    omega
  · have := h.nonneg n
    omega

end Reader

namespace Token

/-! ### One round -/

/-- What one round of cutting has found. -/
structure Step where
  /-- The tokens that were cut off. -/
  tokens : List Token
  /-- The `depth` of parentheses after them. -/
  depth : Nat
  /-- The rest of the text. -/
  rest : List Char

/-- One round of cutting a text, given by its first character and the others. -/
def step? (depth : Nat) (c : Char) (cs : List Char) : Option Step :=
  if c = ' ' ∨ c = '\t' ∨ c = '\x0c' then some ⟨[], depth, cs⟩
  else if c = '\n' then if depth = 0 then none else some ⟨[], depth, cs⟩
  else if c = '#' then some ⟨[], depth, cs.dropWhile (· != '\n')⟩
  else if c.isDigit || (c = '.' && takeGroup.startsWithDigit Char.isDigit cs) then
    (takeNumber? (c :: cs)).bind fun (ts, rest) =>
      if depth < depthLimit then some ⟨ts, depth, rest⟩ else none
  else if Text.isWord c then
    if isName c (cs.takeWhile Text.isWord) then
      some ⟨[.name (String.ofList (c :: cs.takeWhile Text.isWord))], depth,
        cs.dropWhile Text.isWord⟩
    else none
  else if c = '\'' ∨ c = '"' then
    (skipQuoted? c (cs.length + 1) cs).map fun rest => ⟨[.quoted], depth, rest⟩
  else
    (takeOperator? (c :: cs)).bind fun (symbol, rest) =>
      (depthAfter? depth symbol).map fun depth => ⟨[.op symbol], depth, rest⟩

/-- Cutting a text is one round, and cutting the rest. -/
private theorem scan?_succ (n depth : Nat) (c : Char) (cs : List Char) :
    scan? (n + 1) depth (c :: cs) =
      (step? depth c cs).bind fun s => (scan? n s.depth s.rest).map (s.tokens ++ ·) := by
  have hnothing (o : Option (List Token)) : o.map ([] ++ ·) = o := Option.map_id_apply
  rw [scan?, step?]
  split
  · exact (hnothing _).symm
  split
  · split
    · rfl
    · exact (hnothing _).symm
  split
  · exact (hnothing _).symm
  split
  · cases takeNumber? (c :: cs) with
    | none => rfl
    | some r =>
      dsimp only [Option.bind_some]
      split <;> rfl
  split
  · dsimp only
    split <;> rfl
  split
  · cases skipQuoted? c (cs.length + 1) cs <;> rfl
  · cases takeOperator? (c :: cs) with
    | none => rfl
    | some r =>
      dsimp only [Option.bind_some]
      cases depthAfter? depth r.1 <;> rfl

variable {c : Char} {cs rest xs : List Char} {depth k : Nat}

private theorem Leaves.suffix (h : Leaves cs rest) : rest <:+ cs := by
  obtain ⟨used, rfl, -⟩ := h
  exact ⟨used, rfl⟩

private theorem length_skipQuoted? {quote : Char} : ∀ {n : Nat} {cs rest : List Char},
    skipQuoted? quote n cs = some rest → rest.length ≤ cs.length
  | 0, _, _, h => nomatch h
  | n + 1, cs, rest, h => by
    unfold skipQuoted? at h
    split at h
    · have := length_skipQuoted? h
      simp only [List.length_cons]
      omega
    · split at h
      · cases h
        exact Nat.le_succ _
      split at h
      · cases h
      · exact (length_skipQuoted? h).trans (Nat.le_succ _)
    · cases h

private theorem length_takeOperator? {r : String × List Char}
    (h : takeOperator? (c :: cs) = some r) : r.2.length ≤ cs.length := by
  obtain ⟨hmem, happend⟩ := takeOperator?_eq_some h
  have hne := List.length_pos_iff.mpr (toList_operators hmem).1
  have hlength := congrArg List.length happend
  rw [List.length_cons, List.length_append] at hlength
  omega

private theorem digit_or_point
    (h : (c.isDigit || (c = '.' && takeGroup.startsWithDigit Char.isDigit cs)) =
    true) : c.isDigit = true ∨ c = '.' := by
  rw [Bool.or_eq_true, Bool.and_eq_true, decide_eq_true_eq] at h
  exact h.imp_right And.left

/-- A round uses up the first character at least. -/
private theorem length_step? {s : Step} (h : step? depth c cs = some s) :
    s.rest.length ≤ cs.length := by
  -- The branches of a round: blanks, ends of lines, comments, numbers, words, quotes, operators.
  unfold step? at h
  split at h
  · cases h
    exact Nat.le_refl _
  split at h
  · split at h
    · cases h
    · cases h
      exact Nat.le_refl _
  split at h
  · cases h
    exact (List.dropWhile_suffix _).length_le
  split at h
  · rename_i hnumber
    obtain ⟨⟨ts, rest⟩, htake, hsome⟩ := Option.bind_eq_some_iff.mp h
    dsimp only at hsome
    split at hsome
    · cases hsome
      exact (leaves_takeNumber? (digit_or_point hnumber) htake).suffix.length_le
    · cases hsome
  split at h
  · split at h
    · cases h
      exact (List.dropWhile_suffix _).length_le
    · cases h
  split at h
  · obtain ⟨rest, hskip, rfl⟩ := Option.map_eq_some_iff.mp h
    exact length_skipQuoted? hskip
  · obtain ⟨⟨symbol, rest⟩, htake, hsome⟩ := Option.bind_eq_some_iff.mp h
    obtain ⟨d, -, rfl⟩ := Option.map_eq_some_iff.mp hsome
    exact length_takeOperator? htake

/-- The number of rounds does not matter if it is large enough. -/
private theorem scan?_eq_scan? : ∀ (n m : Nat) {cs : List Char} {depth : Nat}, cs.length < n →
    cs.length < m → scan? n depth cs = scan? m depth cs
  | 0, _, _, _, hn, _ => absurd hn (Nat.not_lt_zero _)
  | _, 0, _, _, _, hm => absurd hm (Nat.not_lt_zero _)
  | _ + 1, _ + 1, [], _, _, _ => rfl
  | n + 1, m + 1, c :: cs, depth, hn, hm => by
    rw [scan?_succ, scan?_succ]
    refine Option.bind_congr fun s hstep => ?_
    have hlength := length_step? hstep
    rw [List.length_cons] at hn hm
    rw [scan?_eq_scan? n m (by omega) (by omega)]

/-- The tokens of a text at a depth of parentheses. -/
def tokens? (depth : Nat) (cs : List Char) : Option (List Token) := scan? (cs.length + 1) depth cs

private theorem tokens?_nil (depth : Nat) : tokens? depth [] = some [] := rfl

/-- Cutting a text is one `step?` and then cutting the rest. -/
theorem tokens?_cons (depth : Nat) (c : Char) (cs : List Char) : tokens? depth (c :: cs) =
    (step? depth c cs).bind fun s => (tokens? s.depth s.rest).map (s.tokens ++ ·) := by
  rw [tokens?, List.length_cons, scan?_succ]
  refine Option.bind_congr fun s hstep => ?_
  have hlength := length_step? hstep
  rw [tokens?, scan?_eq_scan? _ (s.rest.length + 1) (by omega) (Nat.lt_succ_self _)]

/-! ### Self-contained texts -/

/-- A character that is not part of a comment or of a quoted text, and no blank but a space, a tab,
a form feed or a line break. -/
def isPlain (c : Char) : Bool :=
  c != '#' && c != '\'' && c != '"' &&
    (!Text.isBlank c || c = ' ' || c = '\t' || c = '\x0c' || c = '\n')

/-- Whether the brackets that a text opens, and as many more, are closed in the text. There may be
one level around them, and line breaks stand in brackets only. -/
def nests : Nat → List Char → Bool
  | depth, [] => depth = 0
  | depth, c :: cs =>
    if c = '(' ∨ c = '[' ∨ c = '\x7b' then depth + 2 < depthLimit && nests (depth + 1) cs
    else if c = ')' ∨ c = ']' ∨ c = '\x7d' then 0 < depth && nests (depth - 1) cs
    else (c != '\n' || 0 < depth) && nests depth cs

/-- Whether a text can be put in parentheses without a part of it being read in another way. -/
def isSelfContained (cs : List Char) : Bool := cs.all isPlain && nests 0 cs

/-- Whether a text `nests` is decided by its first character, and by the rest at the depth after
it. -/
theorem exists_nests_cons (depth : Nat) (c : Char) :
    ∃ (ok : Bool) (d : Nat), ∀ cs, nests depth (c :: cs) = (ok && nests d cs) := by
  by_cases hopen : c = '(' ∨ c = '[' ∨ c = '\x7b'
  · exact ⟨_, _, fun cs => if_pos hopen⟩
  by_cases hclose : c = ')' ∨ c = ']' ∨ c = '\x7d'
  · exact ⟨_, _, fun cs => (if_neg hopen).trans (if_pos hclose)⟩
  · exact ⟨_, _, fun cs => (if_neg hopen).trans (if_neg hclose)⟩

/-- The rest of a text that `nests` does so, if no bracket has been cut off. -/
private theorem nests_of_leaves (h : Leaves cs rest) (hnests : nests depth cs = true) :
    nests depth rest = true := by
  obtain ⟨used, rfl, hused⟩ := h
  induction used with
  | nil => exact hnests
  | cons c used ih =>
    obtain ⟨hc, hused⟩ := List.forall_mem_cons.mp hused
    refine ih hused ?_
    rw [List.cons_append, nests, if_neg, if_neg, Bool.and_eq_true] at hnests
    · exact hnests.2
    · rintro (rfl | rfl | rfl) <;> exact hc (by decide)
    · rintro (rfl | rfl | rfl) <;> exact hc (by decide)

private theorem toList_opening {s : String} (h : s = "(" ∨ s = "[" ∨ s = "\x7b") :
    ∃ b, s.toList = [b] ∧ (b = '(' ∨ b = '[' ∨ b = '\x7b') := by
  rcases h with rfl | rfl | rfl
  · exact ⟨'(', rfl, by decide⟩
  · exact ⟨'[', rfl, by decide⟩
  · exact ⟨'\x7b', rfl, by decide⟩

/-- A bracket that closes is one character, and none that opens. -/
private theorem toList_closing {s : String} (h : s = ")" ∨ s = "]" ∨ s = "\x7d") :
    ∃ b, s.toList = [b] ∧ ¬(b = '(' ∨ b = '[' ∨ b = '\x7b') ∧
      (b = ')' ∨ b = ']' ∨ b = '\x7d') := by
  rcases h with rfl | rfl | rfl
  · exact ⟨')', rfl, by decide⟩
  · exact ⟨']', rfl, by decide⟩
  · exact ⟨'\x7d', rfl, by decide⟩

/-- An operator that is no bracket holds no `marks`. -/
private theorem toList_other {s : String} (h : s ∈ operators)
    (hopen : ¬(s = "(" ∨ s = "[" ∨ s = "\x7b"))
    (hclose : ¬(s = ")" ∨ s = "]" ∨ s = "\x7d")) : ∀ x ∈ s.toList, x ∉ marks := by
  have hall : ∀ s ∈ operators, ¬(s = "(" ∨ s = "[" ∨ s = "\x7b") →
      ¬(s = ")" ∨ s = "]" ∨ s = "\x7d") → s.toList.any (marks.contains ·) = false := by
    decide +kernel
  intro x hx hmark
  have hno := forall_of_any (hall s h hopen hclose) x hx
  rw [List.contains_iff_mem.mpr hmark] at hno
  cases hno

/-- An operator of a text that `nests` changes the `depth` by its `weight`, also one level
deeper. -/
private theorem nests_of_takeOperator? {r : String × List Char}
    (h : takeOperator? (c :: cs) = some r) (hnests : nests depth (c :: cs) = true)
    (hdepth : depth + 1 < depthLimit) :
    ∃ d, (∀ k ≤ 1, depthAfter? (depth + k) r.1 = some (d + k)) ∧ d + 1 < depthLimit ∧
      nests d r.2 = true ∧ (d : ℤ) = depth + Reader.weight (.op r.1) ∧ r.2 <:+ cs := by
  obtain ⟨hmem, happend⟩ := takeOperator?_eq_some h
  obtain ⟨s, rest⟩ := r
  unfold depthAfter? Reader.weight
  dsimp only at *
  -- An operator is an opening bracket, a closing one, or holds no bracket at all.
  by_cases hs : s = "(" ∨ s = "[" ∨ s = "\x7b"
  · obtain ⟨b, hlist, hb⟩ := toList_opening hs
    rw [hlist] at happend
    cases happend
    rw [nests, if_pos hb, Bool.and_eq_true, decide_eq_true_eq] at hnests
    refine ⟨depth + 1, fun k hk => ?_, by omega, hnests.2, ?_, List.suffix_rfl⟩
    · rw [if_pos hs, if_pos (by omega), Nat.add_right_comm]
    · rw [if_pos hs]
      rfl
  by_cases hs' : s = ")" ∨ s = "]" ∨ s = "\x7d"
  · obtain ⟨b, hlist, hnob, hb⟩ := toList_closing hs'
    rw [hlist] at happend
    cases happend
    rw [nests, if_neg hnob, if_pos hb, Bool.and_eq_true, decide_eq_true_eq] at hnests
    refine ⟨depth - 1, fun k hk => ?_, by omega, hnests.2, ?_, List.suffix_rfl⟩
    · rw [if_neg hs, if_pos hs', Nat.sub_add_comm hnests.1]
    · rw [if_neg hs, if_pos hs']
      omega
  · have hleaves : Leaves (c :: cs) rest := ⟨s.toList, happend, toList_other hmem hs hs'⟩
    refine ⟨depth, fun k _ => ?_, hdepth, nests_of_leaves hleaves hnests, ?_, ?_⟩
    · rw [if_neg hs, if_neg hs']
    · rw [if_neg hs, if_neg hs', add_zero]
    · cases hlist : s.toList with
      | nil => exact absurd hlist (toList_operators hmem).1
      | cons x more =>
        rw [hlist] at happend
        cases happend
        exact ⟨more, rfl⟩

private theorem weight_takeFraction (whole cs : List Char) :
    Reader.weight (takeFraction whole cs).1 = 0 := by
  rw [takeFraction_eq]
  split <;> rfl

private theorem weight_wholeNumber? {whole : List Char} {r : Token × List Char}
    (h : wholeNumber? whole cs = some r) : Reader.weight r.1 = 0 := by
  unfold wholeNumber? at h
  split at h
  · cases h
    rfl
  split at h
  · cases h
    rfl
  split at h
  · cases h
  · cases h
    rfl

private theorem weight_numberAfter? {whole : List Char} {r : Token × List Char}
    (h : numberAfter? whole cs = some r) : Reader.weight r.1 = 0 := by
  unfold numberAfter? at h
  split at h
  · cases h
    exact weight_takeFraction whole _
  · exact weight_wholeNumber? h

private theorem weight_takeNumber? {r : List Token × List Char} (h : takeNumber? cs = some r) :
    ∀ t ∈ r.1, Reader.weight t = 0 := by
  rw [takeNumber?_eq] at h
  obtain ⟨⟨t, rest⟩, hplain, rfl⟩ := Option.map_eq_some_iff.mp h
  have ht : Reader.weight t = 0 := by
    rw [takePlainNumber?_eq] at hplain
    split at hplain
    · exact weight_numberAfter? hplain
    · exact weight_numberAfter? hplain
  unfold withUnit
  split
  · split
    · exact List.forall_mem_cons.mpr ⟨ht, by decide⟩
    · exact List.forall_mem_singleton.mpr ht
  · exact List.forall_mem_singleton.mpr ht

/-! ### What a round does not see -/

section Round

variable (hplain : isPlain c = true) (hnests : nests depth (c :: cs) = true)
  (hdepth : depth + 1 < depthLimit)

include hplain hnests hdepth

/-- **What comes after a self-contained text does not change a round.** -/
theorem step?_append (hk : k ≤ 1) (hxs : Bordered xs) : step? (depth + k) c (cs ++ xs) =
    (step? depth c cs).map fun s => ⟨s.tokens, s.depth + k, s.rest ++ xs⟩ := by
  unfold isPlain at hplain
  simp only [Bool.and_eq_true, bne_iff_ne, ne_eq] at hplain
  obtain ⟨⟨⟨hcomment, hsingle⟩, hdouble⟩, -⟩ := hplain
  unfold step?
  -- Numbers, words and operators end at the border, so a round sees none of what comes after it.
  rw [startsWithDigit_append isDigit_borders hxs, ← List.cons_append, takeNumber?_append hxs,
    takeWhile_append_bordered isWord_borders hxs, dropWhile_append_bordered isWord_borders hxs,
    takeOperator?_append hxs]
  split
  · rfl
  split
  · rename_i hbreak
    subst hbreak
    -- A self-contained text has line breaks inside brackets only.
    have hpositive : 0 < depth := by
      simp only [nests] at hnests
      simpa using And.left (by simpa using hnests : _ ∧ _)
    rw [if_neg (by omega), if_neg (by omega)]
    rfl
  split
  · cases takeNumber? (c :: cs) with
    | none => rfl
    | some r =>
      dsimp only [Option.map_some, Option.bind_some]
      rw [if_pos (by omega), if_pos (by omega)]
      rfl
  split
  · split <;> rfl
  simp only [if_neg (not_or.mpr ⟨hsingle, hdouble⟩)]
  cases hoperator : takeOperator? (c :: cs) with
  | none => rfl
  | some r =>
    obtain ⟨d, hd, -⟩ := nests_of_takeOperator? hoperator hnests hdepth
    dsimp only [Option.map_some, Option.bind_some]
    rw [hd k hk, show depthAfter? depth r.1 = some d from hd 0 (Nat.zero_le 1)]
    rfl

/-- **The rest after a round `nests` again**, and the tokens that were cut off account for the
change of the `depth`. -/
theorem step?_keeps {s : Step} (h : step? depth c cs = some s) :
    s.rest <:+ cs ∧ s.depth + 1 < depthLimit ∧ nests s.depth s.rest = true ∧
      Reader.Leads depth s.tokens s.depth := by
  have hnonneg : (0 : ℤ) ≤ depth := Int.natCast_nonneg depth
  -- A round that cuts off no bracket leaves the depth as it is.
  have hquiet {rest : List Char} {ts : List Token} (hc : c ∉ marks) (hrest : Leaves cs rest)
      (hts : ∀ t ∈ ts, Reader.weight t = 0) : rest <:+ cs ∧ depth + 1 < depthLimit ∧
        nests depth rest = true ∧ Reader.Leads depth ts depth :=
    ⟨hrest.suffix, hdepth, nests_of_leaves (hrest.cons hc) hnests, .of_weights hnonneg hts⟩
  unfold step? at h
  split at h
  · rename_i hblank
    cases h
    refine hquiet ?_ (.refl cs) (List.forall_mem_nil _)
    rcases hblank with rfl | rfl | rfl <;> decide
  split at h
  · rename_i hbreak
    split at h
    · cases h
    · cases h
      subst hbreak
      rw [nests, if_neg (by decide), if_neg (by decide), Bool.and_eq_true] at hnests
      exact ⟨List.suffix_rfl, hdepth, hnests.2, .of_weights hnonneg (List.forall_mem_nil _)⟩
  split at h
  · rename_i hcomment
    subst hcomment
    cases hplain
  split at h
  · rename_i hnumber
    obtain ⟨⟨ts, rest⟩, htake, hsome⟩ := Option.bind_eq_some_iff.mp h
    dsimp only at hsome
    rw [if_pos (by omega)] at hsome
    cases hsome
    have hc := digit_or_point hnumber
    have hmark : c ∉ marks := by
      rcases hc with hdigit | rfl
      · exact not_mem_marks isDigit_marks hdigit
      · decide
    exact hquiet hmark (leaves_takeNumber? hc htake) (weight_takeNumber? htake)
  split at h
  · rename_i hword
    split at h
    · cases h
      exact hquiet (not_mem_marks isWord_marks hword) (leaves_dropWhile isWord_marks cs)
        (List.forall_mem_singleton.mpr rfl)
    · cases h
  split at h
  · rename_i hquote
    rcases hquote with rfl | rfl <;> cases hplain
  · obtain ⟨⟨symbol, rest⟩, hoperator, hsome⟩ := Option.bind_eq_some_iff.mp h
    obtain ⟨d, hd, hlimit, hrest, hweight, hsuffix⟩ :=
      nests_of_takeOperator? hoperator hnests hdepth
    dsimp only at hsome
    rw [show depthAfter? depth symbol = some d from hd 0 (Nat.zero_le 1)] at hsome
    cases hsome
    refine ⟨hsuffix, hlimit, hrest, ?_⟩
    dsimp only at hweight ⊢
    rw [hweight]
    exact .singleton hnonneg (hweight ▸ Int.natCast_nonneg d)

end Round

/-! ### All rounds -/

section

variable (hplain : cs.all isPlain = true) (hnests : nests depth cs = true)
  (hdepth : depth + 1 < depthLimit)

include hplain hnests hdepth

/-- What holds of a text if it holds of what a round leaves of it, holds of every text that
`nests`. -/
private theorem rounds_induction {P : Nat → List Char → Prop} (nil : P 0 [])
    (cons : ∀ depth c cs, isPlain c = true → nests depth (c :: cs) = true →
      depth + 1 < depthLimit → (∀ s, step? depth c cs = some s → P s.depth s.rest) →
      P depth (c :: cs)) : P depth cs := by
  obtain ⟨n, hn⟩ : ∃ n, cs.length < n := ⟨_, Nat.lt_succ_self _⟩
  induction n generalizing cs depth with
  | zero => exact absurd hn (Nat.not_lt_zero _)
  | succ n ih =>
    cases cs with
    | nil =>
      obtain rfl : depth = 0 := of_decide_eq_true hnests
      exact nil
    | cons c cs =>
      obtain ⟨hc, hcs⟩ := List.forall_mem_cons.mp (List.all_eq_true.mp hplain)
      refine cons depth c cs hc hnests hdepth fun s hstep => ?_
      obtain ⟨hsuffix, hlimit, hrest, -⟩ := step?_keeps hc hnests hdepth hstep
      have hlength : s.rest.length ≤ cs.length := hsuffix.length_le
      rw [List.length_cons] at hn
      exact ih (List.all_eq_true.mpr fun x hx => hcs x (hsuffix.subset hx)) hrest hlimit (by omega)

/-- The tokens of a text that nests lead from its `depth` to the surface. -/
theorem leads_tokens? {ts : List Token} (h : tokens? depth cs = some ts) :
    Reader.Leads depth ts 0 := by
  revert ts
  refine rounds_induction (P := fun depth cs => ∀ {ts}, tokens? depth cs = some ts →
    Reader.Leads depth ts 0) hplain hnests hdepth ?_ ?_
  · intro ts h
    cases h
    exact .of_weights (Int.le_refl 0) (List.forall_mem_nil _)
  · intro depth c cs hc hnests hdepth ih ts h
    rw [tokens?_cons] at h
    obtain ⟨s, hstep, hrest⟩ := Option.bind_eq_some_iff.mp h
    obtain ⟨us, hus, rfl⟩ := Option.map_eq_some_iff.mp hrest
    exact (step?_keeps hc hnests hdepth hstep).2.2.2.append (ih s hstep hus)

/-- **A text that nests is cut into the same tokens wherever it stands**, before a blank or a
closing parenthesis and at most one level deeper. -/
theorem tokens?_append (hk : k ≤ 1) (hxs : Bordered xs) : tokens? (depth + k) (cs ++ xs) =
    (tokens? depth cs).bind fun ts => (tokens? k xs).map (ts ++ ·) := by
  refine rounds_induction (P := fun depth cs => tokens? (depth + k) (cs ++ xs) =
    (tokens? depth cs).bind fun ts => (tokens? k xs).map (ts ++ ·)) hplain hnests hdepth ?_ ?_
  · rw [Nat.zero_add, List.nil_append, tokens?_nil, Option.bind_some]
    exact Option.map_id_apply.symm
  · intro depth c cs hc hnests hdepth ih
    rw [List.cons_append, tokens?_cons, tokens?_cons, step?_append hc hnests hdepth hk hxs]
    cases hstep : step? depth c cs with
    | none => rfl
    | some s =>
      rw [Option.map_some, Option.bind_some, Option.bind_some, ih s hstep]
      cases tokens? s.depth s.rest with
      | none => rfl
      | some ts =>
        rw [Option.bind_some, Option.map_some, Option.bind_some, Option.map_map]
        exact congrArg (Option.map · _) (funext fun us => (List.append_assoc ..).symm)

end

end Token

end FluxBalance.Equation
