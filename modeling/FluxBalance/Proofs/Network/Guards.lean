import FluxBalance.Proofs.Network.Frame

/-!
# Guards and the counter of a node

Whoever enters a node receives a guard and may leave whenever it likes, not only in the reverse
order of entering. All that the node keeps is one number: minus one for a writer, otherwise how many
readers are inside. A writer that leaves does not take its own entry back but sets the number to
zero. This is right because only some guards are open together: those of readers, or the one of a
writer. `Fits` says which ones, each event keeps it, and so does a history.

An operation enters the node, changes it in place and leaves it again, whether it has failed inside
or not. `InPlace` has the operations in this form, with the number as an integer that is added to
and set. Wherever the guards fit, they do the same as the operations of a node, which have no node
to return if they fail. So a failure has left everything as it was.

## Main definitions and results

* `Visited`, `Event`: a node with the guards that are open, and what may happen to it;
* `InPlace`, `perform_inPlace`: operations on a node in place, and that they do what the operations
  of a `Node` do;
* `Fits`, `fit_foldl_after`: the guards fit the access after any history;
* `counter_accounts_for_guards`: what the number of a node says.
-/

namespace FluxBalance.Node

open FluxBalance.Computation

variable {α : Type}

/-! ### Histories -/

/-- A step of its own that is done to a node. A new value is given with the failure of its
conversion, if there is one. -/
inductive Operation (α : Type) where
  | read
  | setPotential (value : Except (Error α) (DenseMatrix α))
  | setComponent (component : Int) (value : Except (Error α) α)
  | lock
  | ground

/-- The node after an operation. A potential is converted before the node is entered, a component
only when its index has turned out to be right. -/
def Operation.apply [Zero α] (n : Node α) : Operation α → Except (Error α) (Node α)
  | read => do
    let _ ← n.read
    return n
  | setPotential value => do n.setPotential (← value)
  | setComponent component (.ok value) => n.setComponent component value
  | setComponent component (.error e) => do
    let _ ← n.setComponent component 0
    throw e
  | lock => n.lock
  | ground => n.ground

/-- A node with the guards that are open, the latest first. -/
structure Visited (α : Type) where
  /-- The node. -/
  node : Node α
  /-- The guards of those who have entered and not left. -/
  guards : List Guard

/-- What may happen to a node next. -/
inductive Event (α : Type) where
  /-- Somebody tries to enter and to stay. -/
  | enter (guard : Guard)
  /-- The holder of the guard at this position leaves. -/
  | leave (position : Nat)
  /-- Somebody tries an operation. -/
  | perform (operation : Operation α)

/-- The node and its guards after an event. -/
def Event.next [Zero α] (s : Visited α) : Event α → Except (Error α) (Visited α)
  | enter guard => do return ⟨← s.node.enter guard, guard :: s.guards⟩
  | leave position =>
    match s.guards[position]? with
    | some guard => .ok ⟨s.node.leave guard, s.guards.eraseIdx position⟩
    | none => .ok s
  | perform operation => do return ⟨← operation.apply s.node, s.guards⟩

/-- An event that is refused or fails does not count. -/
def Visited.after [Zero α] (s : Visited α) (e : Event α) : Visited α := (e.next s).toOption.getD s

/-- What a history makes of a node that nobody has entered through a guard before it. -/
def visited [Zero α] (n : Node α) (events : List (Event α)) : Visited α :=
  events.foldl Visited.after ⟨n, []⟩

/-! ### Operations in place -/

/-- The part of a node that operations write to, and one number for those who are inside. -/
structure InPlace (α : Type) where
  potential : DenseMatrix α
  isLocked : Bool
  counter : Int

/-- The part of a node that is changed in place. -/
def inPlace (n : Node α) : InPlace α where
  potential := n.potential
  isLocked := n.isLocked
  counter := n.access.counter

namespace InPlace

/-- Somebody enters, unless the number keeps it out. -/
def enter (guard : Guard) : EStateM (Error α) (InPlace α) Unit := fun n =>
  if n.counter = -1 then .error (.borrow .exclusive) n
  else
    match guard with
    | .shared => .ok () { n with counter := n.counter + 1 }
    | .exclusive =>
      if 0 < n.counter then .error (.borrow (.readers n.counter.toNat)) n
      else .ok () { n with counter := -1 }

/-- A reader that leaves is subtracted, a writer that leaves resets the number. -/
def leave (guard : Guard) (n : InPlace α) : InPlace α :=
  match guard with
  | .shared => { n with counter := n.counter - 1 }
  | .exclusive => { n with counter := 0 }

/-- A step inside the node. However it ends, the guard is left. -/
def inside (guard : Guard) (step : EStateM (Error α) (InPlace α) Unit) :
    EStateM (Error α) (InPlace α) Unit := fun n =>
  match enter guard n with
  | .error e m => .error e m
  | .ok _ m =>
    match step m with
    | .ok _ m' => .ok () (m'.leave guard)
    | .error e m' => .error e (m'.leave guard)

/-- An operation in place. -/
def perform [Zero α] : Operation α → EStateM (Error α) (InPlace α) Unit
  | .read => inside .shared (pure ())
  | .setPotential (.error e) => throw e
  | .setPotential (.ok value) => inside .exclusive fun n =>
    if value.shape = n.potential.shape then .ok () { n with potential := value }
    else .error (.potentialShape n.potential.rows value.rows value.cols) n
  | .setComponent component value => inside .exclusive fun n =>
    match n.potential.checkIndex component 0 with
    | .error cause => .error (.matrix cause) n
    | .ok (i, j) =>
      match value with
      | .error e => .error e n
      | .ok value => .ok () { n with potential := n.potential.replace i j value }
  | .lock => inside .exclusive fun n => .ok () { n with isLocked := true }
  | .ground => inside .exclusive do
    modify fun n => { n with potential := .zeros n.potential.rows 1 }
    modify fun n => { n with isLocked := true }

/-- An event in place, with the guards that are open. -/
def happen [Zero α] (guards : List Guard) : Event α → EStateM (Error α) (InPlace α) Unit
  | .enter guard => enter guard
  | .leave position =>
    match guards[position]? with
    | some guard => modify (leave guard)
    | none => pure ()
  | .perform operation => perform operation

end InPlace

/-! ### The same in place -/

/-- Whoever enters joins the readers, or is a writer and finds nobody inside. -/
private theorem access_enter_cases {a b : Access} {guard : Guard} (h : a.enter guard = .ok b) :
    (∃ k, guard = .shared ∧ a = .shared k ∧ b = .shared (k + 1)) ∨
      guard = .exclusive ∧ a = .shared 0 ∧ b = .exclusive := by
  cases guard with
  | shared =>
    cases a with
    | shared k =>
      cases h
      exact .inl ⟨k, rfl, rfl, rfl⟩
    | exclusive => cases h
  | exclusive =>
    have hfree : a = .free := Access.enterExclusive_isOk_iff.mp (congrArg Except.isOk h)
    subst hfree
    cases h
    exact .inr ⟨rfl, rfl, rfl⟩

private theorem enter_eq_ok_iff {guard : Guard} {n m : Node α} :
    n.enter guard = .ok m ↔ ∃ a, n.access.enter guard = .ok a ∧ m = { n with access := a } := by
  rw [enter]
  cases n.access.enter guard <;> simp [eq_comm]

/-- How a change ends in place: with the new node, or with an error and the node as it was. -/
def ended (n : Node α) (r : Except (Error α) (Node α)) :
    EStateM.Result (Error α) (InPlace α) Unit :=
  match r.map inPlace with
  | .ok m => .ok () m
  | .error e => .error e n.inPlace

@[simp] theorem ended_ok (n m : Node α) : ended n (.ok m) = .ok () m.inPlace := rfl

@[simp] theorem ended_error (n : Node α) (e : Error α) : ended n (.error e) = .error e n.inPlace :=
  rfl

/-- Entering a node in place ends as `Node.enter` does. -/
private theorem enter_inPlace (guard : Guard) (n : Node α) :
    InPlace.enter guard n.inPlace = ended n (n.enter guard) := by
  obtain ⟨_, _, _, _, access⟩ := n
  cases access with
  | exclusive => cases guard <;> rfl
  | shared readers =>
    -- The number of readers is never minus one, so the first test refuses nobody.
    have hshared : (readers : Int) ≠ -1 := by omega
    cases guard with
    | shared => exact if_neg hshared
    | exclusive =>
      cases readers with
      | zero => rfl
      | succ k => exact (if_neg hshared).trans (if_pos (Int.natCast_pos.mpr k.succ_pos))

/-- To enter and to leave at once changes nothing in place. -/
private theorem leave_inPlace_of_enter {guard : Guard} {n m : Node α} (h : n.enter guard = .ok m) :
    m.inPlace.leave guard = n.inPlace := by
  obtain ⟨a, ha, rfl⟩ := enter_eq_ok_iff.mp h
  rcases access_enter_cases ha with ⟨k, rfl, hreaders, rfl⟩ | ⟨rfl, hfree, rfl⟩
  · simp [inPlace, InPlace.leave, Access.counter, hreaders]
  · simp [inPlace, InPlace.leave, Access.counter, hfree]

/-- A change in place that agrees with a step inside the node. -/
private theorem inside_exclusive_inPlace {body : EStateM (Error α) (InPlace α) Unit}
    {step : Node α → Except (Error α) (Node α)} (h : ∀ m, body m.inPlace = ended m (step m))
    (n : Node α) : InPlace.inside .exclusive body n.inPlace = ended n (n.change step) := by
  rw [InPlace.inside, enter_inPlace, change, inside]
  cases henter : n.enter .exclusive with
  | error e => rfl
  | ok m =>
    have hleave := leave_inPlace_of_enter henter
    have hstep : (do step (← .ok m) : Except (Error α) (Node α)) = step m := rfl
    rw [hstep, ended_ok]
    dsimp only
    rw [h m]
    cases step m with
    | error e => exact congrArg (EStateM.Result.error e) hleave
    | ok m' => rfl

/-- A shared guard in place ends as reading the node does. -/
private theorem inside_shared_inPlace (n : Node α) :
    InPlace.inside .shared (pure ()) n.inPlace = ended n (n.read.map fun _ => n) := by
  rw [InPlace.inside, enter_inPlace, read, inside]
  cases henter : n.enter .shared with
  | error e => rfl
  | ok m => exact congrArg (EStateM.Result.ok ()) (leave_inPlace_of_enter henter)

/-- The change that setting a component makes, whatever has become of its value. -/
private theorem apply_setComponent [Zero α] (component : Int) (value : Except (Error α) α)
    (n : Node α) : Operation.apply n (.setComponent component value) = n.change fun m =>
      match m.potential.checkIndex component 0 with
      | .error cause => .error (.matrix cause)
      | .ok (i, j) => value.map fun v => { m with potential := m.potential.replace i j v } := by
  cases value <;> simp only [Operation.apply, setComponent, change, inside, DenseMatrix.set]
  all_goals
    cases n.enter .exclusive with
    | error e => rfl
    | ok m =>
      dsimp only [bind, Except.bind]
      cases m.potential.checkIndex component 0 <;> rfl

/-- **Operations in place do what the operations of a node do**, and if they fail, they leave the
node as it was, although they may have entered it. -/
theorem perform_inPlace [Zero α] (operation : Operation α) (n : Node α) :
    InPlace.perform operation n.inPlace = ended n (operation.apply n) := by
  cases operation with
  | read => exact inside_shared_inPlace n
  | setPotential value =>
    cases value with
    | error e => rfl
    | ok value =>
      refine inside_exclusive_inPlace (fun m => ?_) n
      -- The shape is tested before anything is written, so a failure has changed nothing yet.
      have hshape : m.inPlace.potential.shape = m.potential.shape := rfl
      by_cases h : value.shape = m.potential.shape
      · rw [hshape, if_pos h, if_pos h]
        rfl
      · rw [hshape, if_neg h, if_neg h]
        rfl
  | setComponent component value =>
    rw [InPlace.perform, apply_setComponent]
    refine inside_exclusive_inPlace (fun m => ?_) n
    have hcheck : m.inPlace.potential.checkIndex component 0 =
        m.potential.checkIndex component 0 := rfl
    rw [hcheck]
    cases m.potential.checkIndex component 0 with
    | error cause => rfl
    | ok ij => cases value <;> rfl
  | lock =>
    rw [InPlace.perform, Operation.apply, lock]
    exact inside_exclusive_inPlace (fun _ => rfl) n
  | ground =>
    rw [InPlace.perform, Operation.apply, ground]
    exact inside_exclusive_inPlace (fun _ => rfl) n

/-! ### Guards that are open together -/

/-- The guards that are open in a state of access: those of the readers, or that of the writer. -/
inductive Fits : Access → List Guard → Prop
  | readers (k : Nat) : Fits (.shared k) (.replicate k .shared)
  | writer : Fits .exclusive [.exclusive]

section

variable {a b : Access} {guards : List Guard} {guard : Guard}

/-- A guard that enters is added to those that fit the access. -/
theorem Fits.enter (h : Fits a guards) (hb : a.enter guard = .ok b) :
    Fits b (guard :: guards) := by
  rcases access_enter_cases hb with ⟨k, rfl, rfl, rfl⟩ | ⟨rfl, rfl, rfl⟩
  · cases h
    exact .readers (k + 1)
  · cases h
    exact .writer

/-- An open guard is that of one of the readers, or that of the writer, who is alone. -/
private theorem Fits.getElem?_cases (h : Fits a guards) {i : Nat} (hi : guards[i]? = some guard) :
    (∃ k, a = .shared (k + 1) ∧ guard = .shared ∧ guards.eraseIdx i = .replicate k .shared) ∨
      a = .exclusive ∧ guard = .exclusive ∧ guards.eraseIdx i = [] := by
  cases h with
  | readers k =>
    obtain ⟨hik, hguard⟩ := List.getElem?_eq_some_iff.mp hi
    rw [List.length_replicate] at hik
    rw [List.getElem_replicate] at hguard
    obtain ⟨m, rfl⟩ : ∃ m, k = m + 1 := Nat.exists_eq_add_one.mpr (Nat.zero_lt_of_lt hik)
    refine .inl ⟨m, rfl, hguard.symm, ?_⟩
    rw [List.eraseIdx_replicate, if_pos hik, Nat.add_sub_cancel]
  | writer =>
    obtain ⟨hi, hguard⟩ := List.getElem?_eq_some_iff.mp hi
    obtain rfl : i = 0 := Nat.lt_one_iff.mp hi
    exact .inr ⟨rfl, hguard.symm, rfl⟩

/-- A guard that leaves is taken from those that fit the access. -/
theorem Fits.leave (h : Fits a guards) {i : Nat} (hi : guards[i]? = some guard) :
    Fits (a.leave guard) (guards.eraseIdx i) := by
  rcases h.getElem?_cases hi with ⟨k, rfl, rfl, hrest⟩ | ⟨rfl, rfl, hrest⟩
  · rw [hrest]
    exact .readers k
  · rw [hrest]
    exact .readers 0

/-- The number is minus one exactly if the one open guard is that of a writer. -/
private theorem Fits.counter_eq_neg_one_iff (h : Fits a guards) :
    a.counter = -1 ↔ guards.count .exclusive = 1 ∧ guards.count .shared = 0 := by
  cases h with
  | readers k =>
    have hshared : (k : Int) ≠ -1 := by omega
    have hcount : (List.replicate k Guard.shared).count .exclusive = 0 := by
      rw [List.count_replicate]
      rfl
    exact iff_of_false hshared fun hone => absurd (hcount.symm.trans hone.1) Nat.zero_ne_one
  | writer => exact iff_of_true rfl ⟨rfl, rfl⟩

/-- Unless someone writes, the `counter` is the number of readers. -/
private theorem Fits.counter_eq_count (h : Fits a guards) (hreaders : a.counter ≠ -1) :
    a.counter = guards.count .shared := by
  cases h with
  | readers k =>
    rw [List.count_replicate_self]
    rfl
  | writer => exact absurd rfl hreaders

private theorem Fits.eq_free_iff (h : Fits a guards) : a = .free ↔ guards = [] := by
  cases h with
  | readers k => simp [Access.free]
  | writer => simp [Access.free]

/-- A node is not held exclusively exactly if no guard is exclusive. -/
private theorem Fits.ne_exclusive_iff (h : Fits a guards) :
    a ≠ .exclusive ↔ Guard.exclusive ∉ guards := by
  cases h with
  | readers k => simp
  | writer => simp

end

/-! ### What a history keeps -/

section

variable [Zero α]

/-- Whoever does an operation is inside for no longer than it takes. -/
private theorem access_apply {operation : Operation α} {n m : Node α}
    (h : operation.apply n = .ok m) : m.access = n.access := by
  cases operation with
  | read =>
    obtain ⟨_, -, ⟨⟩⟩ := except_bind_eq_ok.mp h
    rfl
  | setPotential value =>
    obtain ⟨_, -, h⟩ := except_bind_eq_ok.mp h
    obtain ⟨-, -, rfl⟩ := setPotential_eq_ok_iff.mp h
    rfl
  | setComponent component value =>
    cases value with
    | error e =>
      obtain ⟨_, -, ⟨⟩⟩ := except_bind_eq_ok.mp h
    | ok value =>
      obtain ⟨-, _, -, rfl⟩ := setComponent_eq_ok_iff.mp h
      rfl
  | lock =>
    obtain ⟨-, rfl⟩ := lock_eq_ok_iff.mp h
    rfl
  | ground =>
    obtain ⟨-, rfl⟩ := ground_eq_ok_iff.mp h
    rfl

/-- The open guards fit the node. -/
def Visited.Fit (s : Visited α) : Prop := Fits s.node.access s.guards

/-- **An event keeps the guards fitting.** -/
theorem Visited.Fit.next {s s' : Visited α} (h : s.Fit) {e : Event α} (hnext : e.next s = .ok s') :
    s'.Fit := by
  cases e with
  | enter guard =>
    obtain ⟨m, hm, ⟨⟩⟩ := except_bind_eq_ok.mp hnext
    obtain ⟨a, ha, rfl⟩ := enter_eq_ok_iff.mp hm
    exact h.enter ha
  | leave position =>
    rw [Event.next] at hnext
    cases hguard : s.guards[position]? with
    | none =>
      rw [hguard] at hnext
      cases hnext
      exact h
    | some guard =>
      rw [hguard] at hnext
      cases hnext
      exact h.leave hguard
  | perform operation =>
    obtain ⟨m, hm, ⟨⟩⟩ := except_bind_eq_ok.mp hnext
    rw [Visited.Fit, access_apply hm]
    exact h

/-- **A history keeps the guards fitting.** -/
theorem fit_foldl_after : ∀ (events : List (Event α)) {s : Visited α}, s.Fit →
    (events.foldl Visited.after s).Fit
  | [], _, h => h
  | e :: events, s, h => by
    refine fit_foldl_after events ?_
    rw [Visited.after]
    cases hnext : e.next s with
    | error cause => exact h
    | ok s' => exact h.next hnext

/-- **Events in place do what the events of a node do**, as long as the guards fit. -/
theorem Visited.Fit.happen_inPlace {s : Visited α} (h : s.Fit) (e : Event α) :
    InPlace.happen s.guards e s.node.inPlace = ended s.node ((e.next s).map Visited.node) := by
  cases e with
  | enter guard =>
    rw [InPlace.happen, enter_inPlace, Event.next]
    cases s.node.enter guard <;> rfl
  | leave position =>
    rw [InPlace.happen, Event.next]
    cases hguard : s.guards[position]? with
    | none => rfl
    | some guard =>
      have hleave : s.node.inPlace.leave guard = (s.node.leave guard).inPlace := by
        rcases h.getElem?_cases hguard with ⟨k, haccess, rfl, -⟩ | ⟨-, rfl, -⟩
        · simp [inPlace, InPlace.leave, Node.leave, haccess, Access.counter, Access.leave]
        · rfl
      exact congrArg (EStateM.Result.ok ()) hleave
  | perform operation =>
    rw [InPlace.happen, perform_inPlace, Event.next]
    cases operation.apply s.node <;> rfl

/-- A guard can be the next to enter exactly if the access allows it. -/
private theorem exists_next_enter_iff {guard : Guard} {s : Visited α} :
    (∃ s', (Event.enter guard).next s = .ok s') ↔ (s.node.access.enter guard).isOk := by
  rw [Event.next, enter]
  cases s.node.access.enter guard <;> simp [bind, Except.bind, pure, Except.pure, Except.isOk,
    Except.toBool]

/-- **The number accounts for the guards**, after every history of a node that nobody has entered
before it. It is minus one exactly if one writer and no reader is inside, and otherwise how many
readers are. A writer can enter exactly if no guard is open, and a reader if no writer is inside.
Whatever is tried next has the same outcome in place, and if it is refused or fails, the number, the
potential and the lock are what they were. -/
theorem counter_accounts_for_guards {n : Node α} (hfree : n.access = .free)
    (events : List (Event α)) {s : Visited α} (hs : n.visited events = s) :
    (s.node.access.counter = -1 ↔
      s.guards.count .exclusive = 1 ∧ s.guards.count .shared = 0) ∧
    (s.node.access.counter ≠ -1 → s.node.access.counter = s.guards.count .shared) ∧
    ((∃ s', (Event.enter .exclusive).next s = .ok s') ↔ s.guards = []) ∧
    ((∃ s', (Event.enter .shared).next s = .ok s') ↔ Guard.exclusive ∉ s.guards) ∧
    ∀ e : Event α,
      (∀ s', e.next s = .ok s' →
        InPlace.happen s.guards e s.node.inPlace = .ok () s'.node.inPlace) ∧
      ∀ cause, e.next s = .error cause →
        InPlace.happen s.guards e s.node.inPlace = .error cause s.node.inPlace := by
  -- Everything that is said of the number follows from the guards fitting the access.
  have hfit : s.Fit := by
    have hstart : (⟨n, []⟩ : Visited α).Fit := by
      rw [Visited.Fit, hfree]
      exact .readers 0
    rw [← hs]
    exact fit_foldl_after events hstart
  refine ⟨hfit.counter_eq_neg_one_iff, hfit.counter_eq_count, ?_, ?_, fun e => ?_⟩
  · have hwriter : (s.node.access.enter .exclusive).isOk ↔ s.node.access = .free :=
      Access.enterExclusive_isOk_iff
    exact exists_next_enter_iff.trans (hwriter.trans hfit.eq_free_iff)
  · have hreader : (s.node.access.enter .shared).isOk ↔ s.node.access ≠ .exclusive :=
      Access.enterShared_isOk_iff
    exact exists_next_enter_iff.trans (hreader.trans hfit.ne_exclusive_iff)
  · have hhappen := hfit.happen_inPlace e
    refine ⟨fun s' hnext => ?_, fun cause hnext => ?_⟩
    · rw [hhappen, hnext]
      rfl
    · rw [hhappen, hnext]
      rfl

end

/-- Two readers enter, and the first of them leaves. In between somebody tries to lock the node, and
after that a writer tries to enter. -/
def crossing : List (Event Rat) :=
  [.enter .shared, .enter .shared, .perform .lock, .leave 1, .enter .exclusive]

/-- With one reader left, the number is one, and grounding the node is refused and changes nothing;
once the reader has left too, a writer can enter. -/
theorem counter_accounts_for_guards_crossing :
    (Node.zero 1 : Node Rat).access = .free ∧
    ((zero 1).visited crossing).guards = [.shared] ∧
    ((zero 1).visited crossing).node.access.counter = 1 ∧
    InPlace.happen [.shared] (.perform .ground) ((zero 1).visited crossing).node.inPlace =
      .error (.borrow (.readers 1)) ((zero 1).visited crossing).node.inPlace ∧
    ∃ s', (Event.enter .exclusive).next ((zero 1).visited (crossing ++ [.leave 0])) = .ok s' := by
  have hfree : (Node.zero 1 : Node Rat).access = .free := rfl
  have hguards : ((zero 1).visited crossing).guards = [.shared] := rfl
  obtain ⟨hwriter, hreaders, -, -, hnext⟩ := counter_accounts_for_guards hfree crossing rfl
  obtain ⟨-, -, hexclusive, -, -⟩ :=
    counter_accounts_for_guards hfree (crossing ++ [.leave 0]) rfl
  rw [hguards] at hwriter hreaders
  refine ⟨hfree, hguards, hreaders fun h => ?_, (hnext (.perform .ground)).2 _ rfl,
    hexclusive.mpr rfl⟩
  exact absurd (hwriter.mp h).1 (by decide)

end FluxBalance.Node
