import FluxBalance.Proofs.Equation.Cutting
import FluxBalance.Proofs.Equation.Sides

/-!
# The text of a difference

The two sides of an equation are put in parentheses with a minus between them. If the sides are
self-contained, the tokens of this text are those of the sides, with the parentheses and the minus
among them, and the names that stand alone in it are those that stand alone in the sides. What a
side has for blanks at its ends is no part of its tokens, so each side has the same tokens on its
own.

## Main definitions and results

* `differenceText`: the sides in parentheses with a minus between them;
* `ofText?_differenceText`, `tokens?_difference`: its tokens are those of the sides with brackets
  and minus;
* `bareNames_differenceText`: the names that stand alone in it, by `namesAlone`.
-/

namespace FluxBalance.Equation

namespace Token

variable {c : Char} {cs xs left right : List Char} {depth d : Nat}

/-! ### Tokens of a difference -/

/-- The blanks that are skipped at any depth. -/
def IsGap (c : Char) : Prop := c = ' ' ∨ c = '\t' ∨ c = '\x0c'

private theorem tokens?_gap (h : IsGap c) :
    tokens? depth (c :: cs) = tokens? depth cs := by
  rw [tokens?_cons, step?, if_pos (show c = ' ' ∨ c = '\t' ∨ c = '\x0c' from h)]
  exact Option.map_id_apply

/-- A parenthesis or a minus is a token. -/
private theorem tokens?_symbol {s : String} (hc : c ∈ ['(', ')', '-'])
    (htake : takeOperator? (c :: cs) = some (s, cs)) (hdepth : depthAfter? depth s = some d) :
    tokens? depth (c :: cs) = (tokens? d cs).map (.op s :: ·) := by
  have hkind : ¬(c = ' ' ∨ c = '\t' ∨ c = '\x0c') ∧ c ≠ '\n' ∧ c ≠ '#' ∧ c.isDigit = false ∧
      c ≠ '.' ∧ Text.isWord c = false ∧ ¬(c = '\'' ∨ c = '"') := by
    simp only [List.mem_cons, List.not_mem_nil, or_false] at hc
    rcases hc with rfl | rfl | rfl <;> decide +kernel
  obtain ⟨hblank, hbreak, hcomment, hdigit, hpoint, hword, hquote⟩ := hkind
  have hnumber : (c.isDigit || (c = '.' && takeGroup.startsWithDigit Char.isDigit cs)) = false := by
    rw [hdigit, decide_eq_false hpoint]
    rfl
  rw [tokens?_cons, step?, if_neg hblank, if_neg hbreak, if_neg hcomment, hnumber,
    if_neg Bool.false_ne_true, hword, if_neg Bool.false_ne_true, if_neg hquote, htake,
    Option.bind_some]
  dsimp only
  rw [hdepth]
  rfl

/-- A self-contained text is plain and `nests` from depth zero. -/
theorem isSelfContained_iff : isSelfContained cs = true ↔
    cs.all isPlain = true ∧ nests 0 cs = true := Bool.and_eq_true_iff

/-- The tokens of a self-contained text in parentheses. -/
private theorem tokens?_parens (h : isSelfContained cs = true) (xs : List Char) :
    tokens? 0 ('(' :: (cs ++ ')' :: xs)) =
      (tokens? 0 cs).bind fun ts => (tokens? 0 xs).map fun us =>
        .op "(" :: (ts ++ .op ")" :: us) := by
  obtain ⟨hplain, hnests⟩ := isSelfContained_iff.mp h
  have hborder : Bordered (')' :: xs) := fun x hx => by
    cases hx
    decide
  have happend := tokens?_append hplain hnests (by decide) (Nat.le_refl 1) hborder
  rw [Nat.zero_add] at happend
  rw [tokens?_symbol (by decide) rfl (d := 1) rfl, happend,
    tokens?_symbol (by decide) rfl (d := 0) rfl]
  cases tokens? 0 cs with
  | none => rfl
  | some ts => cases tokens? 0 xs <;> rfl

/-- The text of a difference. -/
def differenceText (left right : List Char) : List Char :=
  '(' :: (left ++ ')' :: ' ' :: '-' :: ' ' :: '(' :: (right ++ [')']))

theorem tokens?_difference (hleft : isSelfContained left = true)
    (hright : isSelfContained right = true) : tokens? 0 (differenceText left right) =
      (tokens? 0 left).bind fun ts => (tokens? 0 right).map fun us => Reader.difference ts us := by
  rw [differenceText, tokens?_parens hleft, tokens?_gap (.inl rfl),
    tokens?_symbol (by decide) rfl rfl, tokens?_gap (.inl rfl), tokens?_parens hright]
  cases tokens? 0 left with
  | none => rfl
  | some ts => cases tokens? 0 right <;> rfl

/-! ### Blanks at the ends -/

private theorem IsGap.mem_borders (h : IsGap c) : c ∈ borders := by
  rcases h with rfl | rfl | rfl <;> decide

private theorem isGap_or_newline (hplain : isPlain c = true) (hblank : Text.isBlank c = true) :
    IsGap c ∨ c = '\n' := by
  unfold isPlain at hplain
  rw [Bool.and_eq_true, hblank] at hplain
  simpa only [IsGap, Bool.not_true, Bool.false_or, Bool.or_eq_true, decide_eq_true_eq,
    or_assoc] using hplain.2

/-- Where a plain text `nests`, the end of a line stands inside brackets. -/
private theorem nests_cons_of_blank (hplain : isPlain c = true) (hblank : Text.isBlank c = true)
    (h : nests depth (c :: cs) = true) : (IsGap c ∨ 0 < depth) ∧ nests depth cs = true := by
  have hkind := isGap_or_newline hplain hblank
  have hno : ¬(c = '(' ∨ c = '[' ∨ c = '\x7b') ∧ ¬(c = ')' ∨ c = ']' ∨ c = '\x7d') := by
    rcases hkind with (rfl | rfl | rfl) | rfl <;> decide
  rw [nests, if_neg hno.1, if_neg hno.2, Bool.and_eq_true, Bool.or_eq_true, bne_iff_ne,
    decide_eq_true_eq] at h
  exact ⟨h.1.imp_left hkind.resolve_right, h.2⟩

/-- At the end of a text that `nests` there are gaps only. -/
theorem nests_blanks (hplain : xs.all isPlain = true) (hblank : xs.all Text.isBlank = true)
    (h : nests depth xs = true) : depth = 0 ∧ ∀ x ∈ xs, IsGap x := by
  induction xs with
  | nil => exact ⟨of_decide_eq_true h, List.forall_mem_nil _⟩
  | cons x xs ih =>
    rw [List.all_cons, Bool.and_eq_true] at hplain hblank
    obtain ⟨hx, hrest⟩ := nests_cons_of_blank hplain.1 hblank.1 h
    obtain ⟨hdepth, hxs⟩ := ih hplain.2 hblank.2 hrest
    exact ⟨hdepth, List.forall_mem_cons.mpr ⟨hx.resolve_right (by omega), hxs⟩⟩

private theorem nests_append_blanks (hplain : xs.all isPlain = true)
    (hblank : xs.all Text.isBlank = true)
    (h : nests depth (cs ++ xs) = true) : nests depth cs = true ∧ ∀ x ∈ xs, IsGap x := by
  induction cs generalizing depth with
  | nil =>
    obtain ⟨rfl, hxs⟩ := nests_blanks hplain hblank h
    exact ⟨rfl, hxs⟩
  | cons c cs ih =>
    obtain ⟨ok, d, hcons⟩ := exists_nests_cons depth c
    rw [List.cons_append, hcons, Bool.and_eq_true] at h
    obtain ⟨hcs, hxs⟩ := ih h.2
    rw [hcons, Bool.and_eq_true]
    exact ⟨⟨h.1, hcs⟩, hxs⟩

theorem tokens?_gaps (h : ∀ x ∈ xs, IsGap x) : tokens? depth xs = some [] := by
  induction xs with
  | nil => rfl
  | cons x xs ih =>
    obtain ⟨hx, hxs⟩ := List.forall_mem_cons.mp h
    rw [tokens?_gap hx, ih hxs]

/-- Blanks at the front of a self-contained text are no part of its tokens. -/
private theorem tokens?_dropWhile_isBlank (h : isSelfContained cs = true) :
    tokens? 0 (cs.dropWhile Text.isBlank) = tokens? 0 cs ∧
      isSelfContained (cs.dropWhile Text.isBlank) = true := by
  induction cs with
  | nil => exact ⟨rfl, h⟩
  | cons c cs ih =>
    rw [List.dropWhile_cons]
    split
    · rename_i hblank
      obtain ⟨hplain, hnests⟩ := isSelfContained_iff.mp h
      rw [List.all_cons, Bool.and_eq_true] at hplain
      obtain ⟨hgap, hrest⟩ := nests_cons_of_blank hplain.1 hblank hnests
      rw [tokens?_gap (hgap.resolve_right (Nat.lt_irrefl 0))]
      exact ih (isSelfContained_iff.mpr ⟨hplain.2, hrest⟩)
    · exact ⟨rfl, h⟩

/-- Blanks at the end of a self-contained text are no part of its tokens. -/
private theorem tokens?_rdropWhile_isBlank (h : isSelfContained cs = true) :
    tokens? 0 (cs.reverse.dropWhile Text.isBlank).reverse = tokens? 0 cs := by
  obtain ⟨hplain, hnests⟩ := isSelfContained_iff.mp h
  have hsplit : (cs.reverse.dropWhile Text.isBlank).reverse ++
      (cs.reverse.takeWhile Text.isBlank).reverse = cs := by
    rw [← List.reverse_append, List.takeWhile_append_dropWhile, List.reverse_reverse]
  generalize (cs.reverse.dropWhile Text.isBlank).reverse = front at hsplit ⊢
  have hblank : (cs.reverse.takeWhile Text.isBlank).reverse.all Text.isBlank = true := by
    rw [List.all_reverse, List.all_takeWhile]
  generalize (cs.reverse.takeWhile Text.isBlank).reverse = back at hsplit hblank
  subst hsplit
  rw [List.all_append, Bool.and_eq_true] at hplain
  obtain ⟨hfront, hgaps⟩ := nests_append_blanks hplain.2 hblank hnests
  have hborder : Bordered back := fun x hx => (hgaps x (List.mem_of_head? hx)).mem_borders
  have happend := tokens?_append hplain.1 hfront (by decide) (Nat.zero_le 1) hborder
  rw [Nat.add_zero, tokens?_gaps hgaps] at happend
  rw [happend]
  cases tokens? 0 front with
  | none => rfl
  | some ts => exact congrArg some (List.append_nil ts).symm

/-- The tokens of a self-contained text are those that it has with its blanks at the ends. -/
theorem ofText?_ofList (h : isSelfContained cs = true) :
    ofText? (String.ofList cs) = tokens? 0 cs := by
  obtain ⟨hfront, hcontained⟩ := tokens?_dropWhile_isBlank h
  rw [← hfront, ← tokens?_rdropWhile_isBlank hcontained]
  unfold ofText?
  rw [String.toList_ofList]
  rfl

/-- The text of a difference is cut from depth zero, as nothing has to be stripped. -/
theorem ofText?_differenceText (left right : List Char) :
    ofText? (String.ofList (differenceText left right)) =
      tokens? 0 (differenceText left right) := by
  have hstrip : Text.stripChars (differenceText left right) = differenceText left right := by
    unfold Text.stripChars
    have hfront : (differenceText left right).dropWhile Text.isBlank = differenceText left right :=
      List.dropWhile_cons_of_neg (by decide)
    have hend : (differenceText left right).reverse =
        ')' :: ('(' :: (left ++ ')' :: ' ' :: '-' :: ' ' :: '(' :: right)).reverse := by
      rw [← List.reverse_concat]
      simp [differenceText]
    rw [hfront, hend, List.dropWhile_cons_of_neg (by decide), ← hend, List.reverse_reverse]
  unfold ofText?
  rw [String.toList_ofList]
  dsimp only
  rw [hstrip]
  rfl

/-! ### Names that stand alone -/

/-- The number of rounds does not matter if it is large enough. -/
private theorem bareNamesFrom_eq : ∀ (n m : Nat) (inside : Bool) {cs : List Char}, cs.length < n →
    cs.length < m → bareNamesFrom n inside cs = bareNamesFrom m inside cs
  | 0, _, _, _, hn, _ => absurd hn (Nat.not_lt_zero _)
  | _, 0, _, _, _, hm => absurd hm (Nat.not_lt_zero _)
  | _ + 1, _ + 1, _, [], _, _ => rfl
  | n + 1, m + 1, inside, c :: cs, hn, hm => by
    rw [List.length_cons] at hn hm
    have hafter := (List.dropWhile_suffix (l := cs) Text.isWord).length_le
    rw [bareNamesFrom, bareNamesFrom]
    dsimp only
    rw [bareNamesFrom_eq n m true (by omega) (by omega),
      bareNamesFrom_eq n m true (show (cs.dropWhile Text.isWord).length < n by omega) (by omega),
      bareNamesFrom_eq n m false (by omega) (by omega)]

/-- The names that stand alone in a text; the flag says whether a word goes on at its front. -/
def namesAlone (inside : Bool) (cs : List Char) : List String :=
  bareNamesFrom (cs.length + 1) inside cs

/-- The names that stand alone in a text are read off its characters. -/
theorem bareNames_ofList (cs : List Char) : bareNames (String.ofList cs) = namesAlone false cs := by
  unfold bareNames
  rw [String.toList_ofList]
  rfl

/-- The name that begins with the first character and goes on in the others, if it stands alone. -/
def nameAlone (c : Char) (cs : List Char) : List String :=
  if (c.isAlpha || c = '_') && !opensParenthesis (cs.dropWhile Text.isWord) then
    [String.ofList (c :: cs.takeWhile Text.isWord)]
  else []

/-- The scan `namesAlone` goes on character by character, and takes a name where a word begins. -/
private theorem namesAlone_cons (inside : Bool) (c : Char) (cs : List Char) :
    namesAlone inside (c :: cs) = if Text.isWord c then
      if inside then namesAlone true cs
      else nameAlone c cs ++ namesAlone true (cs.dropWhile Text.isWord)
    else namesAlone false cs := by
  have hafter := (List.dropWhile_suffix (l := cs) Text.isWord).length_le
  unfold namesAlone nameAlone
  rw [bareNamesFrom]
  dsimp only
  rw [List.length_cons,
    bareNamesFrom_eq (cs.length + 1) ((cs.dropWhile Text.isWord).length + 1) true
      (show (cs.dropWhile Text.isWord).length < cs.length + 1 by omega) (Nat.lt_succ_self _)]
  split
  · split
    · rfl
    split <;> rfl
  · rfl

private theorem namesAlone_skip (inside : Bool) (hc : Text.isWord c = false) (cs : List Char) :
    namesAlone inside (c :: cs) = namesAlone false cs := by
  rw [namesAlone_cons, hc, if_neg Bool.false_ne_true]

/-- What comes after a parenthesis that closes does not open one right away. -/
private theorem opensParenthesis_append (cs xs : List Char) :
    opensParenthesis (cs ++ ')' :: xs) = opensParenthesis cs := by
  have hclose : (')' :: xs).dropWhile Text.isBlank = ')' :: xs :=
    List.dropWhile_cons_of_neg (by decide)
  unfold opensParenthesis
  rw [List.dropWhile_append, hclose]
  cases cs.dropWhile Text.isBlank with
  | nil => rfl
  | cons d ds =>
    rw [List.isEmpty_cons, if_neg Bool.false_ne_true, List.cons_append]
    split
    · rename_i h
      cases h
      rfl
    · rename_i hother
      split
      · rename_i h
        cases h
        exact absurd rfl (hother _)
      · rfl

/-- A closing parenthesis keeps the names on either side of it apart. -/
private theorem namesAlone_append (inside : Bool) (cs xs : List Char) :
    namesAlone inside (cs ++ ')' :: xs) = namesAlone inside cs ++ namesAlone false xs := by
  obtain ⟨n, hn⟩ : ∃ n, cs.length < n := ⟨_, Nat.lt_succ_self _⟩
  have hborder : Bordered (')' :: xs) := fun x hx => by
    cases hx
    decide
  induction n generalizing inside cs with
  | zero => exact absurd hn (Nat.not_lt_zero _)
  | succ n ih =>
    cases cs with
    | nil => exact namesAlone_skip inside (by decide +kernel) xs
    | cons c cs =>
      rw [List.length_cons] at hn
      have hafter := (List.dropWhile_suffix (l := cs) Text.isWord).length_le
      have hname : nameAlone c (cs ++ ')' :: xs) = nameAlone c cs := by
        unfold nameAlone
        rw [dropWhile_append_bordered isWord_borders hborder,
          takeWhile_append_bordered isWord_borders hborder, opensParenthesis_append]
      rw [List.cons_append, namesAlone_cons, namesAlone_cons, hname,
        dropWhile_append_bordered isWord_borders hborder, ih true cs (by omega),
        ih true _ (by omega), ih false cs (by omega)]
      split
      · split
        · rfl
        · exact (List.append_assoc ..).symm
      · rfl

/-- The names that stand alone in a difference are those of its sides. -/
theorem bareNames_differenceText (left right : List Char) :
    bareNames (String.ofList (differenceText left right)) =
      namesAlone false left ++ namesAlone false right := by
  have hword : ∀ c ∈ ['(', ' ', '-'], Text.isWord c = false := forall_of_any (by decide +kernel)
  rw [bareNames_ofList, differenceText, namesAlone_skip _ (hword _ (by decide)), namesAlone_append,
    namesAlone_skip _ (hword _ (by decide)), namesAlone_skip _ (hword _ (by decide)),
    namesAlone_skip _ (hword _ (by decide)), namesAlone_skip _ (hword _ (by decide)),
    namesAlone_append]
  exact congrArg _ (List.append_nil _)

end Token

end FluxBalance.Equation
