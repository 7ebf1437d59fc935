import FluxBalance.Proofs.Handles.Calls
import FluxBalance.Proofs.Handles.Signature

/-!
# Histories of handles

Calls that follow each other from the empty table on make objects and destroy them. The account of
the handles is a `Ledger`: the live objects together with what has been destroyed are what has been
made, each handle once. One call adds at most one entry to the ledger, and it changes at most the
object that its operation changes; so the ledger holds after any calls, and an object that no call
changes or destroys is as it was.

The main statement draws the conclusions for callers. Handles are never given out twice, what has
been destroyed is gone for good, the live objects are counted correctly, and calls do not interfere
with objects that they are not meant to change.

## Main definitions and results

* `Does`, `does`: what a call does, by the signature of its operation;
* `Ledger`, `call`, `calls`: the account of the handles, kept by one call and by any calls;
* `Orderly`, `orderly_of_calls`: what this says of the handles after any calls.
-/

namespace FluxBalance

open FluxBalance.Computation Operation

/-! ### Calls -/

/-- An operation and what it is called with. -/
structure Call where
  op : Operation
  args : List Argument

namespace Call

/-- What the call answers. -/
def answer (c : Call) (t : HandleTable) : Except (Error Float) Reply := (c.op.call c.args t).1

/-- The table after the call. -/
def after (c : Call) (t : HandleTable) : HandleTable := (c.op.call c.args t).2

/-- The handle that a call which makes an object has given out, and the kind of the object. -/
def made? (c : Call) (t : HandleTable) : Option (Nat × HandleKind) :=
  match c.op.effect, c.op.run c.args t with
  | .makes kind, .ok (.code n) _ => some (n.toNat, kind)
  | _, _ => none

/-- The handle whose object a call has destroyed, and the kind that is destroyed. -/
def destroyed? (c : Call) (t : HandleTable) : Option (Nat × HandleKind) :=
  match c.op.effect, c.args, c.op.run c.args t with
  | .destroys kind, [a], .ok _ _ => a.handle?.map fun h => (h, kind)
  | _, _, _ => none

/-- The call is meant to change or to destroy the object of the kind with the handle. -/
def Touches (c : Call) (h : Nat) (kind : HandleKind) : Prop :=
  (∃ a, c.args.head? = some a ∧ a.handle? = some h) ∧
    (c.op.effect = .changes kind ∨ c.op.effect = .destroys kind)

/-- The call has the handle where its operation expects one. -/
def Given (c : Call) (h : Nat) : Prop :=
  ∃ (i : Nat) (role : Role) (a : Argument), c.op.roles[i]? = some role ∧ role ≠ .value ∧
    c.args[i]? = some a ∧ a.handle? = some h

/-! ### One call -/

/-- What a call does to the table. -/
inductive Does (c : Call) (t : HandleTable) : HandleTable → Prop
  | nothing : c.made? t = none → c.destroyed? t = none → Does c t t
  | makes {x : HandledObject} : c.made? t = some (t.next, x.kind) → c.destroyed? t = none →
    Does c t (t.insert x)
  | changes {h : Nat} {x y : HandledObject} : t.get? h = some x → y.kind = x.kind →
    c.Touches h x.kind → c.made? t = none → c.destroyed? t = none → Does c t (t.replace h y)
  | destroys {h : Nat} {x : HandledObject} : t.get? h = some x → c.Touches h x.kind →
    c.made? t = none → c.destroyed? t = some (h, x.kind) → Does c t (t.erase h)

variable {c : Call} {t : HandleTable}

/-- The table after a call is the one that `run` leaves. -/
theorem after_eq (c : Call) (t : HandleTable) : c.after t = finalState (c.op.run c.args t) :=
  snd_call _ _ _

/-- A call that fails has neither made nor destroyed anything. -/
private theorem made?_of_error {e : Error Float} {t' : HandleTable}
    (h : c.op.run c.args t = .error e t') : c.made? t = none := by
  unfold made?
  rw [h]
  split
  · rename_i hok
    cases hok
  · rfl

private theorem destroyed?_of_error {e : Error Float} {t' : HandleTable}
    (h : c.op.run c.args t = .error e t') : c.destroyed? t = none := by
  unfold destroyed?
  rw [h]
  split
  · rename_i hok
    cases hok
  · rfl

/-- A call whose effect is not to make an object makes none. -/
private theorem made?_of_effect (h : ∀ kind, c.op.effect ≠ .makes kind) : c.made? t = none := by
  unfold made?
  split
  · rename_i heffect _
    exact absurd heffect (h _)
  · rfl

/-- A call whose effect is not to destroy an object destroys none. -/
private theorem destroyed?_of_effect (h : ∀ kind, c.op.effect ≠ .destroys kind) :
    c.destroyed? t = none := by
  unfold destroyed?
  split
  · rename_i heffect _ _
    exact absurd heffect (h _)
  · rfl

/-- **What a call does**, by the signature of its operation. -/
theorem does (c : Call) (t : HandleTable) : c.Does t (c.after t) := by
  -- By its signature a call does one thing at most: it makes, changes or destroys an object.
  have hconforms := conforms_run t c.op c.args
  rw [after_eq]
  cases hrun : c.op.run c.args t with
  | error e t' =>
    have hmade := made?_of_error hrun
    have hdestroyed := destroyed?_of_error hrun
    rw [hrun] at hconforms
    -- A call that fails may leave its object changed halfway.
    cases hconforms with
    | refused | failed | misnamed | unguarded => exact .nothing hmade hdestroyed
    | halfway _ ha hx heffect hy =>
      obtain ⟨hhandle, hlive, rfl⟩ := hx
      exact .changes hlive hy ⟨⟨_, ha, hhandle⟩, .inl heffect⟩ hmade hdestroyed
  | ok r t' =>
    rw [hrun] at hconforms
    cases hconforms with
    | looked _ heffect =>
      refine .nothing (made?_of_effect fun kind => ?_) (destroyed?_of_effect fun kind => ?_)
      · rcases heffect with heffect | ⟨_, heffect⟩ <;> simp [heffect]
      · rcases heffect with heffect | ⟨_, heffect⟩ <;> simp [heffect]
    | made _ heffect hkind =>
      subst hkind
      refine .makes ?_ (destroyed?_of_effect fun kind => by simp [heffect])
      simp only [made?, heffect, hrun, Int.toNat_natCast]
    | changed _ ha hx heffect hy =>
      obtain ⟨hhandle, hlive, rfl⟩ := hx
      exact .changes hlive hy ⟨⟨_, ha, hhandle⟩, .inl heffect⟩
        (made?_of_effect fun kind => by simp [heffect])
        (destroyed?_of_effect fun kind => by simp [heffect])
    | destroyed hargs _ hx heffect =>
      obtain ⟨hhandle, hlive, rfl⟩ := hx
      refine .destroys hlive ⟨⟨_, by rw [hargs]; rfl, hhandle⟩, .inr heffect⟩
        (made?_of_effect fun kind => by simp [heffect]) ?_
      simp only [destroyed?, heffect, hargs, hargs ▸ hrun, hhandle, Option.map_some]

end Call

/-! ### The ledger -/

namespace HandleTable

/-- The table after calls. -/
def after (t : HandleTable) (calls : List Call) : HandleTable :=
  calls.foldl (fun t c => c.after t) t

/-- The handles that calls have given out, with the kinds of the objects. -/
def made : HandleTable → List Call → List (Nat × HandleKind)
  | _, [] => []
  | t, c :: calls => (c.made? t).toList ++ (c.after t).made calls

/-- The handles whose objects calls have destroyed, with the kinds that have been destroyed. -/
def destroyed : HandleTable → List Call → List (Nat × HandleKind)
  | _, [] => []
  | t, c :: calls => (c.destroyed? t).toList ++ (c.after t).destroyed calls

/-- The live objects by their handles and kinds. -/
def entries (t : HandleTable) : List (Nat × HandleKind) := t.objects.map fun p => (p.1, p.2.kind)

private theorem map_fst_entries (t : HandleTable) :
    t.entries.map Prod.fst = t.objects.map Prod.fst := by
  rw [entries, List.map_map]
  rfl

private theorem length_entries (t : HandleTable) : t.entries.length = t.size := List.length_map _

/-- What is live and what has been destroyed has been made, each handle once. -/
structure Ledger (t : HandleTable) (made destroyed : List (Nat × HandleKind)) : Prop where
  perm : (t.entries ++ destroyed).Perm made
  nodup : (made.map Prod.fst).Nodup
  pos : ∀ p ∈ made, 0 < p.1
  lt_next : ∀ p ∈ made, p.1 < t.next
  next_pos : 0 < t.next

variable {t : HandleTable} {made destroyed : List (Nat × HandleKind)}

/-- For the empty table nothing has been made or destroyed. -/
private theorem ledger_empty : empty.Ledger [] [] where
  perm := .nil
  nodup := List.nodup_nil
  pos := nofun
  lt_next := nofun
  next_pos := Nat.one_pos

namespace Ledger

/-- In a `Ledger` no handle stands twice, be its object alive or destroyed. -/
theorem nodup_append (h : t.Ledger made destroyed) :
    ((t.entries ++ destroyed).map Prod.fst).Nodup := (h.perm.map Prod.fst).nodup_iff.mpr h.nodup

/-- A handle whose object has been destroyed stands for nothing. -/
private theorem get?_eq_none (h : t.Ledger made destroyed) {p : Nat × HandleKind}
    (hp : p ∈ destroyed) : t.get? p.1 = none := by
  cases hget : t.get? p.1 with
  | none => rfl
  | some x =>
    have hnodup := h.nodup_append
    rw [List.map_append, map_fst_entries, List.nodup_append] at hnodup
    exact absurd rfl (hnodup.2.2 _ (List.mem_map_of_mem (mem_of_get? hget)) _
      (List.mem_map_of_mem hp))

/-- The new handle stands for nothing yet. -/
theorem insert (h : t.Ledger made destroyed) (x : HandledObject) :
    (t.insert x).Ledger (made ++ [(t.next, x.kind)]) destroyed where
  perm := by
    have hentries : (t.insert x).entries = t.entries ++ [(t.next, x.kind)] := List.map_append
    rw [hentries, List.append_assoc]
    exact (List.perm_append_comm.append_left _).trans
      (by rw [← List.append_assoc]; exact h.perm.append_right _)
  nodup := by
    rw [List.map_append, List.nodup_append]
    refine ⟨h.nodup, List.nodup_singleton _, ?_⟩
    rintro n hn _ hnext rfl
    obtain ⟨p, hp, rfl⟩ := List.mem_map.mp hn
    exact absurd (List.mem_singleton.mp hnext) (Nat.ne_of_lt (h.lt_next p hp))
  pos := List.forall_mem_append.mpr ⟨h.pos, List.forall_mem_singleton.mpr h.next_pos⟩
  lt_next := List.forall_mem_append.mpr
    ⟨fun p hp => Nat.lt_succ_of_lt (h.lt_next p hp),
      List.forall_mem_singleton.mpr (Nat.lt_succ_self _)⟩
  next_pos := Nat.succ_pos _

/-- What is changed keeps its entry. -/
theorem replace (h : t.Ledger made destroyed) {k : Nat} {x y : HandledObject}
    (hx : t.get? k = some x) (hy : y.kind = x.kind) : (t.replace k y).Ledger made destroyed where
  perm := by
    have hnodup : (t.objects.map Prod.fst).Nodup := by
      rw [← map_fst_entries]
      exact (List.nodup_append.mp (by simpa using h.nodup_append)).1
    have hentries : (t.replace k y).entries = t.entries := by
      rw [entries, HandleTable.replace, List.map_map]
      refine List.map_congr_left fun p hp => ?_
      by_cases hpk : p.1 = k
      · obtain rfl := List.inj_on_of_nodup_map hnodup hp (mem_of_get? hx) hpk
        simp [hy]
      · simp [hpk]
    rw [hentries]
    exact h.perm
  nodup := h.nodup
  pos := h.pos
  lt_next := h.lt_next
  next_pos := h.next_pos

/-- What is destroyed is noted. -/
theorem erase (h : t.Ledger made destroyed) {k : Nat} {x : HandledObject}
    (hx : t.get? k = some x) : (t.erase k).Ledger made (destroyed ++ [(k, x.kind)]) where
  perm := by
    obtain ⟨front, back, hsplit⟩ := List.append_of_mem (mem_of_get? hx)
    have hnodup : (t.objects.map Prod.fst).Nodup := by
      rw [← map_fst_entries]
      exact (List.nodup_append.mp (by simpa using h.nodup_append)).1
    rw [hsplit, List.map_append, List.map_cons, List.nodup_append, List.nodup_cons] at hnodup
    obtain ⟨-, ⟨hback, -⟩, hfront⟩ := hnodup
    have herase : (t.erase k).objects = front ++ back := by
      have hkeep : ∀ l : List (Nat × HandledObject), k ∉ l.map Prod.fst →
          l.filter (fun p => p.1 != k) = l := fun l hl => List.filter_eq_self.mpr fun p hp => by
        simpa using fun hpk : p.1 = k => hl (hpk ▸ List.mem_map_of_mem hp)
      rw [HandleTable.erase, hsplit, List.filter_append, List.filter_cons_of_neg (by simp),
        hkeep back hback, hkeep front fun hmem => hfront _ hmem _ List.mem_cons_self rfl]
    have hentries : t.entries.Perm ((t.erase k).entries ++ [(k, x.kind)]) := by
      rw [entries, entries, herase, hsplit]
      exact (List.perm_middle.trans (List.perm_append_singleton _ _).symm).map _ |>.trans
        (by rw [List.map_append, List.map_append]; rfl)
    refine .trans ?_ h.perm
    calc ((t.erase k).entries ++ (destroyed ++ [(k, x.kind)])).Perm
          ((t.erase k).entries ++ ([(k, x.kind)] ++ destroyed)) :=
            List.perm_append_comm.append_left _
      _ = (t.erase k).entries ++ [(k, x.kind)] ++ destroyed := (List.append_assoc _ _ _).symm
      _ |>.Perm (t.entries ++ destroyed) := hentries.symm.append_right _
  nodup := h.nodup
  pos := h.pos
  lt_next := h.lt_next
  next_pos := h.next_pos

/-- **One call keeps the `Ledger`.** -/
theorem call (h : t.Ledger made destroyed) (c : Call) :
    (c.after t).Ledger (made ++ (c.made? t).toList) (destroyed ++ (c.destroyed? t).toList) := by
  have hdoes := c.does t
  generalize c.after t = t' at hdoes
  cases hdoes with
  | nothing hmade hdestroyed =>
    rw [hmade, hdestroyed, Option.toList_none, List.append_nil, List.append_nil]
    exact h
  | makes hmade hdestroyed =>
    rw [hmade, hdestroyed, Option.toList_none, List.append_nil]
    exact h.insert _
  | changes hx hy _ hmade hdestroyed =>
    rw [hmade, hdestroyed, Option.toList_none, List.append_nil, List.append_nil]
    exact h.replace hx hy
  | destroys hx _ hmade hdestroyed =>
    rw [hmade, hdestroyed, Option.toList_none, List.append_nil]
    exact h.erase hx

/-- **Any calls keep the `Ledger`.** -/
theorem calls {calls : List Call} (h : t.Ledger made destroyed) :
    (t.after calls).Ledger (made ++ t.made calls) (destroyed ++ t.destroyed calls) := by
  induction calls generalizing t made destroyed with
  | nil =>
    rw [HandleTable.made, HandleTable.destroyed, List.append_nil, List.append_nil]
    exact h
  | cons c calls ih =>
    rw [HandleTable.made, HandleTable.destroyed, ← List.append_assoc, ← List.append_assoc]
    exact ih (h.call c)

end Ledger

/-! ### Objects that calls leave alone -/

private theorem get?_replace_of_ne (t : HandleTable) {h k : Nat} (x : HandledObject) (hne : k ≠ h) :
    (t.replace h x).get? k = t.get? k := by
  have hkeys : ((fun p : Nat × HandledObject => p.1 == k) ∘
      fun p => if p.1 == h then (h, x) else p) = fun p => p.1 == k := by
    funext p
    rw [Function.comp_apply]
    by_cases hp : p.1 = h
    · simp [hp]
    · simp [hp]
  rw [get?, replace, List.find?_map, hkeys, get?]
  cases hfind : t.objects.find? fun p => p.1 == k with
  | none => rfl
  | some p =>
    have hpk : p.1 = k := by simpa using List.find?_some hfind
    simp [hpk, hne]

/-- **A call changes one object at most**: the one that its operation is meant to change or to
destroy, or the one that it makes. -/
theorem touches_or_made (c : Call) {h : Nat} (hne : (c.after t).get? h ≠ t.get? h) :
    (∃ x, t.get? h = some x ∧ c.Touches h x.kind) ∨ ∃ kind, c.made? t = some (h, kind) := by
  have hdoes := c.does t
  generalize c.after t = t' at hdoes hne
  cases hdoes with
  | nothing => exact absurd rfl hne
  | makes hmade =>
    by_cases hh : h = t.next
    · exact .inr ⟨_, by rw [hh, hmade]⟩
    · exact absurd (get?_insert_of_ne t _ hh) hne
  | @changes k x y hx _ htouches =>
    by_cases hh : h = k
    · subst hh
      exact .inl ⟨x, hx, htouches⟩
    · exact absurd (get?_replace_of_ne t y hh) hne
  | @destroys k x hx htouches =>
    by_cases hh : h = k
    · subst hh
      exact .inl ⟨x, hx, htouches⟩
    · exact absurd (get?_erase_of_ne t hh) hne

/-- An object stays as it is while no call touches it. -/
private theorem get?_after {calls : List Call} {h : Nat} {x : HandledObject}
    (ht : t.Ledger made destroyed) (hx : t.get? h = some x)
    (hcalls : ∀ c ∈ calls, ¬c.Touches h x.kind) : (t.after calls).get? h = some x := by
  induction calls generalizing t made destroyed with
  | nil => exact hx
  | cons c calls ih =>
    obtain ⟨hc, hrest⟩ := List.forall_mem_cons.mp hcalls
    refine ih (ht.call c) ?_ hrest
    by_contra hne
    rw [← hx] at hne
    rcases touches_or_made c hne with ⟨y, hy, htouches⟩ | ⟨kind, hmade⟩
    · obtain rfl := Option.some.inj (hx.symm.trans hy)
      exact hc htouches
    · -- A handle that is given out has not been in use.
      have hnodup := (ht.call c).nodup
      rw [hmade, List.map_append, List.nodup_append] at hnodup
      have hentry : (h, x.kind) ∈ t.entries :=
        List.mem_map_of_mem (f := fun p => (p.1, p.2.kind)) (mem_of_get? hx)
      exact absurd rfl (hnodup.2.2 h (List.mem_map_of_mem (f := Prod.fst)
        (ht.perm.subset (List.mem_append_left _ hentry))) h (List.mem_singleton_self _))

end HandleTable

namespace Call

variable {c : Call} {t : HandleTable} {made destroyed : List (Nat × HandleKind)}

/-! ### Handles that stand for nothing -/

private theorem admits_of_fits {roles : List Role} {args : List Argument} (h : Fits t roles args)
    {i : Nat} {role : Role} {a : Argument} (hrole : roles[i]? = some role)
    (ha : args[i]? = some a) :
    role.Admits t a := by
  induction roles generalizing args i with
  | nil => cases hrole
  | cons r roles ih =>
    cases args with
    | nil => cases ha
    | cons b args =>
      cases i with
      | zero =>
        cases hrole
        cases ha
        exact h.1
      | succ i => exact ih h.2 hrole ha

/-- Arguments with a handle that stands for nothing are not as expected, unless the handle is the
one that stands for no object. -/
private theorem not_fits_of_given {h : Nat} (hgiven : c.Given h) (hpos : 0 < h)
    (hnone : t.get? h = none) : ¬Fits t c.op.roles c.args := by
  intro hfits
  obtain ⟨i, role, a, hrole, hne, ha, hhandle⟩ := hgiven
  have hstands : ¬∃ kind k x, Stands t kind a k x := by
    rintro ⟨kind, k, x, hstands⟩
    have hk : h = k := Option.some.inj (hhandle.symm.trans hstands.handle)
    rw [← hk] at hstands
    exact absurd (hnone.symm.trans hstands.live) nofun
  have hadmits := admits_of_fits hfits hrole ha
  cases role with
  | object kind => exact hstands ⟨kind, hadmits⟩
  | optional kind =>
    rcases hadmits with hnull | hlive
    · rw [Argument.isNull, hhandle, beq_iff_eq, Option.some.injEq] at hnull
      exact absurd hnull hpos.ne'
    · exact hstands ⟨kind, hlive⟩
  | value => exact hne rfl

/-- An operation that expects a handle has a reply for failures. -/
private theorem failure?_ne_none {h : Nat} (hgiven : c.Given h) : c.op.failure? ≠ none := by
  obtain ⟨i, role, a, hrole, hne, -⟩ := hgiven
  have hmem : role ∈ c.op.roles := List.mem_of_getElem? hrole
  intro hfailure
  cases hop : c.op <;> rw [hop] at hfailure hmem <;> try cases hfailure
  · exact hne (List.mem_singleton.mp hmem)
  · cases hmem

/-- A call reports a failure with the reply that its operation has for that, or it lets out that a
name is no text. -/
inductive Reports (c : Call) : Except (Error Float) Reply → Prop
  | reply {r : Reply} : c.op.failure? = some r → Reports c (.ok r)
  | misnamed {name : Argument} : c.op = addConstant ∨ c.op = declareVariable →
    c.args[1]? = some name → (∀ s, name ≠ .text s) → Reports c (.error (.fault .notText))

/-- **A call with a handle that stands for nothing fails** and does nothing. -/
theorem reports_of_given {h : Nat} (hgiven : c.Given h) (hpos : 0 < h)
    (hnone : t.get? h = none) : c.Reports (c.answer t) ∧ c.after t = t := by
  have hnot := not_fits_of_given hgiven hpos hnone
  have hconforms := conforms_run t c.op c.args
  rw [after_eq, answer, Operation.call]
  cases hrun : c.op.run c.args t with
  | ok r t' =>
    rw [hrun] at hconforms
    cases hconforms with
    | looked hfits | made hfits | changed hfits => exact absurd hfits hnot
    | destroyed hargs hroles hx =>
      refine absurd ?_ hnot
      rw [hargs, hroles]
      exact ⟨⟨_, _, hx⟩, trivial⟩
  | error e t' =>
    rw [hrun] at hconforms
    obtain ⟨r, hr⟩ := Option.ne_none_iff_exists'.mp (failure?_ne_none hgiven)
    dsimp only
    rw [hr]
    cases hconforms with
    | refused hreported =>
      dsimp only
      rw [if_pos hreported]
      exact ⟨.reply hr, rfl⟩
    | misnamed hop hname htext => exact ⟨.misnamed hop hname htext, rfl⟩
    | unguarded hfailure => exact absurd hfailure (failure?_ne_none hgiven)
    | failed hfits | halfway hfits => exact absurd hfits hnot

/-! ### Answers of calls that make or destroy -/

/-- What keeps an operation that makes or destroys objects from doing so is answered by zero. -/
private theorem answer_of_error (hnothing : c.op.effect ≠ .nothing)
    (hchanges : ∀ kind, c.op.effect ≠ .changes kind) {e : Error Float} {t' : HandleTable}
    (h : c.op.run c.args t = .error e t') : c.answer t = .ok (.code 0) := by
  have hfailure : c.op.failure? = some (.code 0) := by
    cases hop : c.op <;> rw [hop] at hnothing hchanges <;> first
      | rfl
      | exact absurd rfl hnothing
      | exact absurd rfl (hchanges _)
  have hreported : isReported e = true := by
    have hconforms := conforms_run t c.op c.args
    rw [h] at hconforms
    cases hconforms with
    | refused hreported => exact hreported
    | failed _ hother => exact absurd hother hnothing
    | misnamed hop => rcases hop with hop | hop <;> exact absurd (by rw [hop]; rfl) (hchanges _)
    | unguarded hnone => exact absurd (hnone.symm.trans hfailure) nofun
    | halfway _ _ _ hother => exact absurd hother (hchanges _)
  rw [answer, Operation.call, h]
  dsimp only
  rw [hfailure]
  dsimp only
  rw [if_pos hreported]

/-- A call that makes an object answers zero or the handle of a new object. -/
private theorem answer_of_makes {kind : HandleKind} (heffect : c.op.effect = .makes kind) :
    (c.answer t = .ok (.code 0) ∧ c.made? t = none) ∨
      c.answer t = .ok (.code t.next) ∧ c.made? t = some (t.next, kind) := by
  have hconforms := conforms_run t c.op c.args
  cases hrun : c.op.run c.args t with
  | error e t' =>
    exact .inl ⟨answer_of_error (by simp [heffect]) (by simp [heffect]) hrun, made?_of_error hrun⟩
  | ok r t' =>
    rw [hrun] at hconforms
    have hanswer : c.answer t = .ok r := by rw [answer, Operation.call, hrun]
    rw [hanswer, made?, heffect, hrun]
    cases hconforms with
    | looked _ hother =>
      rcases hother with hother | ⟨_, hother⟩ <;> exact absurd (hother ▸ heffect) nofun
    | made => exact .inr ⟨rfl, rfl⟩
    | changed _ _ _ hother | destroyed _ _ _ hother => exact absurd (hother ▸ heffect) nofun

/-- A call that destroys an object answers zero, or one after it has destroyed the object of the
handle that it is given. -/
private theorem answer_of_destroys {kind : HandleKind} (heffect : c.op.effect = .destroys kind) :
    (c.answer t = .ok (.code 0) ∧ c.destroyed? t = none) ∨
      ∃ h, c.answer t = .ok (.code 1) ∧ c.Touches h kind ∧ c.destroyed? t = some (h, kind) := by
  have hconforms := conforms_run t c.op c.args
  cases hrun : c.op.run c.args t with
  | error e t' =>
    exact .inl
      ⟨answer_of_error (by simp [heffect]) (by simp [heffect]) hrun, destroyed?_of_error hrun⟩
  | ok r t' =>
    rw [hrun] at hconforms
    have hanswer : c.answer t = .ok r := by rw [answer, Operation.call, hrun]
    rw [hanswer]
    cases hconforms with
    | looked _ hother =>
      rcases hother with hother | ⟨_, hother⟩ <;> exact absurd (hother ▸ heffect) nofun
    | made _ hother | changed _ _ _ hother => exact absurd (hother ▸ heffect) nofun
    | @destroyed a _ h x hargs _ hx hother =>
      refine .inr ⟨h, rfl, ⟨⟨a, by rw [hargs]; rfl, hx.handle⟩, .inr heffect⟩, ?_⟩
      simp only [destroyed?, heffect, hargs, hargs ▸ hrun, hx.handle, Option.map_some]

end Call

/-! ### What callers may rely on -/

/-- What holds of the handles after calls from the empty table on. -/
structure Orderly (calls : List Call) : Prop where
  /-- A call that makes an object answers zero if it fails, and otherwise a handle that has not been
  given out before. -/
  makes {c : Call} {kind : HandleKind} : c.op.effect = .makes kind →
    (c.answer (.after .empty calls) = .ok (.code 0) ∧ c.made? (.after .empty calls) = none) ∨
      ∃ h : Nat, 0 < h ∧ (∀ p ∈ HandleTable.empty.made calls, p.1 ≠ h) ∧
        c.answer (.after .empty calls) = .ok (.code h) ∧
        c.made? (.after .empty calls) = some (h, kind)
  /-- All handles that have been given out are different, and none of them is zero. -/
  made_nodup : ((HandleTable.empty.made calls).map Prod.fst).Nodup
  made_pos : ∀ p ∈ HandleTable.empty.made calls, 0 < p.1
  /-- A call that destroys an object answers zero if it fails and otherwise one. -/
  destroys {c : Call} {kind : HandleKind} : c.op.effect = .destroys kind →
    (c.answer (.after .empty calls) = .ok (.code 0) ∧ c.destroyed? (.after .empty calls) = none) ∨
      ∃ h, c.answer (.after .empty calls) = .ok (.code 1) ∧ c.Touches h kind ∧
        c.destroyed? (.after .empty calls) = some (h, kind)
  /-- What has been destroyed has been made as an object of that kind, and it has been destroyed
  once. -/
  destroyed_subset : HandleTable.empty.destroyed calls ⊆ HandleTable.empty.made calls
  destroyed_nodup : ((HandleTable.empty.destroyed calls).map Prod.fst).Nodup
  /-- A call that is given a handle whose object has been destroyed fails and changes nothing. -/
  dead {c : Call} {p : Nat × HandleKind} : p ∈ HandleTable.empty.destroyed calls → c.Given p.1 →
    c.Reports (c.answer (.after .empty calls)) ∧
      c.after (.after .empty calls) = .after .empty calls
  /-- The live handles are those that have been made and not destroyed. -/
  count : (⟨countHandles, []⟩ : Call).answer (.after .empty calls) = .ok (.code
    ((HandleTable.empty.made calls).length - (HandleTable.empty.destroyed calls).length))
  /-- A call changes no object but the one that it is meant to change or destroy. -/
  changes {c : Call} {h : Nat} :
    (c.after (.after .empty calls)).get? h ≠ (HandleTable.after .empty calls).get? h →
      (∃ x, (HandleTable.after .empty calls).get? h = some x ∧ c.Touches h x.kind) ∨
        ∃ kind, c.made? (.after .empty calls) = some (h, kind)
  /-- Whatever is called later, an object is as it was if no call is meant to change or destroy
  it. -/
  keeps {later : List Call} {h : Nat} {x : HandledObject} :
    (HandleTable.after .empty calls).get? h = some x → (∀ c ∈ later, ¬c.Touches h x.kind) →
      (HandleTable.after .empty (calls ++ later)).get? h = some x

/-- **Histories of handles are `Orderly`**, whatever is called and in whatever order. -/
theorem orderly_of_calls (calls : List Call) : Orderly calls := by
  have hledger : (HandleTable.after .empty calls).Ledger _ _ := HandleTable.ledger_empty.calls
  rw [List.nil_append, List.nil_append] at hledger
  have hdestroyed : HandleTable.empty.destroyed calls ⊆ HandleTable.empty.made calls :=
    fun _ hp => hledger.perm.subset (List.mem_append_right _ hp)
  have hnodup := hledger.nodup_append
  rw [List.map_append, List.nodup_append] at hnodup
  exact
    { makes := fun heffect => (Call.answer_of_makes heffect).imp_right fun h =>
        ⟨_, hledger.next_pos, fun p hp => Nat.ne_of_lt (hledger.lt_next p hp), h⟩
      made_nodup := hledger.nodup
      made_pos := hledger.pos
      destroys := Call.answer_of_destroys
      destroyed_subset := hdestroyed
      destroyed_nodup := hnodup.2.1
      dead := fun hp hgiven =>
        Call.reports_of_given hgiven (hledger.pos _ (hdestroyed hp)) (hledger.get?_eq_none hp)
      count := by
        have hlength := hledger.perm.length_eq
        rw [List.length_append, HandleTable.length_entries] at hlength
        change Except.ok (Reply.code ((HandleTable.after .empty calls).size : Int)) = _
        rw [← hlength, Nat.cast_add, add_sub_cancel_right]
      changes := HandleTable.touches_or_made _
      keeps := fun hx hlater => by
        rw [HandleTable.after, List.foldl_append]
        exact HandleTable.get?_after hledger hx hlater }

/-- A builder outlives the constants that it has been made with. -/
example : let calls : List Call := [⟨newContext, []⟩, ⟨newBuilder, [.text "x + y = 1", .int 1]⟩,
      ⟨freeContext, [.int 1]⟩, ⟨freeContext, [.int 1]⟩, ⟨freeContext, [.int 2]⟩]
    HandleTable.empty.made calls = [(1, .context), (2, .builder)] ∧
      HandleTable.empty.destroyed calls = [(1, .context)] := by decide +kernel

end FluxBalance
