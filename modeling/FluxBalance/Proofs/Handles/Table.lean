import Mathlib.Data.List.Nodup
import FluxBalance.Handles.Table

/-!
# Tables of live objects

In a `Proper` table every handle stands for one object, and the handle that the next object will
have is greater than all of them. Creating, replacing and destroying objects keep a table proper,
and replacing an object by itself changes nothing.

## Main definitions and results

* `Proper`: every handle stands for one object, and the next one is new;
* `Proper.insert`, `Proper.replace`, `Proper.erase`: changes that keep a table proper.
-/

namespace FluxBalance.HandleTable

variable {t : HandleTable} {h : Nat} {x y : HandledObject}

/-- Every handle stands for one object, and the next one is new. -/
structure Proper (t : HandleTable) : Prop where
  nodup : (t.objects.map Prod.fst).Nodup
  lt_next : ∀ p ∈ t.objects, p.1 < t.next
  next_pos : 0 < t.next

theorem proper_empty : empty.Proper where
  nodup := List.nodup_nil
  lt_next := nofun
  next_pos := Nat.one_pos

private theorem map_fst_replace (t : HandleTable) (h : Nat) (x : HandledObject) :
    (t.replace h x).objects.map Prod.fst = t.objects.map Prod.fst := by
  rw [replace, List.map_map]
  refine List.map_congr_left fun p _ => ?_
  by_cases hp : p.1 = h <;> simp [hp]

/-- Inserting an object keeps a table `Proper`, as its handle is new. -/
theorem Proper.insert (ht : t.Proper) (x : HandledObject) : (t.insert x).Proper where
  nodup := by
    have hnew : t.next ∉ t.objects.map Prod.fst := by
      intro hmem
      obtain ⟨p, hp, heq⟩ := List.mem_map.mp hmem
      exact absurd heq (Nat.ne_of_lt (ht.lt_next p hp))
    rw [HandleTable.insert, List.map_append, List.map_singleton]
    exact List.nodup_append_comm.mp (List.nodup_cons.mpr ⟨hnew, ht.nodup⟩)
  lt_next p hp := by
    rcases List.mem_append.mp hp with hp | hp
    · exact Nat.lt_succ_of_lt (ht.lt_next p hp)
    · obtain rfl := List.mem_singleton.mp hp
      exact Nat.lt_succ_self _
  next_pos := Nat.succ_pos _

theorem Proper.replace (ht : t.Proper) (h : Nat) (x : HandledObject) : (t.replace h x).Proper where
  nodup := by
    rw [map_fst_replace]
    exact ht.nodup
  lt_next p hp := by
    have hmem : p.1 ∈ t.objects.map Prod.fst := by
      rw [← map_fst_replace t h x]
      exact List.mem_map_of_mem hp
    obtain ⟨q, hq, heq⟩ := List.mem_map.mp hmem
    rw [← heq]
    exact ht.lt_next q hq
  next_pos := ht.next_pos

theorem Proper.erase (ht : t.Proper) (h : Nat) : (t.erase h).Proper where
  nodup := ht.nodup.sublist (List.filter_sublist.map _)
  lt_next p hp := ht.lt_next p (List.mem_filter.mp hp).1
  next_pos := ht.next_pos

theorem mem_of_get? (hx : t.get? h = some x) : (h, x) ∈ t.objects := by
  obtain ⟨⟨k, y⟩, hfind, rfl⟩ := Option.map_eq_some_iff.mp hx
  obtain rfl : k = h := by simpa using List.find?_some hfind
  exact List.mem_of_find?_eq_some hfind

/-- **To replace an object by itself changes nothing.** -/
theorem Proper.replace_self (ht : t.Proper) (hx : t.get? h = some x) : t.replace h x = t := by
  have hsame : ∀ p ∈ t.objects, (if p.1 == h then (h, x) else p) = p := by
    intro p hp
    by_cases hph : p.1 = h
    · rw [if_pos (beq_iff_eq.mpr hph)]
      exact List.inj_on_of_nodup_map ht.nodup (mem_of_get? hx) hp hph.symm
    · rw [if_neg (by simpa using hph)]
  unfold HandleTable.replace
  rw [List.map_congr_left hsame, List.map_id']

/-- Of two replacements of one object the second counts. -/
theorem replace_replace (t : HandleTable) (h : Nat) (x y : HandledObject) :
    (t.replace h x).replace h y = t.replace h y := by
  unfold HandleTable.replace
  simp only [List.map_map]
  congr 1
  refine List.map_congr_left fun p _ => ?_
  by_cases hp : p.1 = h <;> simp [hp]

end FluxBalance.HandleTable
