import Mathlib.Data.List.Perm.Basic
import Mathlib.Data.List.Flatten

/-!
# Slots

A list whose places are overwritten one at a time, such as the threads of a process, and what all
of its elements contribute to.
-/

namespace Slots

variable {α β : Type} {slots : List α} {i : Nat} {a b : α} {g : α → List β}

theorem flatMap_set_of_eq (hget : slots[i]? = some a) (h : g b = g a) :
    (slots.set i b).flatMap g = slots.flatMap g := by
  induction slots generalizing i with
  | nil => rfl
  | cons c slots ih =>
    cases i with
    | zero =>
      obtain rfl : c = a := Option.some.inj hget
      rw [List.set_cons_zero, List.flatMap_cons, List.flatMap_cons, h]
    | succ i => rw [List.set_cons_succ, List.flatMap_cons, List.flatMap_cons, ih hget]

theorem flatMap_of_alone (hget : slots[i]? = some a)
    (halone : ∀ j c, j ≠ i → slots[j]? = some c → g c = []) : slots.flatMap g = g a := by
  induction slots generalizing i with
  | nil => cases hget
  | cons c slots ih =>
    cases i with
    | zero =>
      obtain rfl : c = a := Option.some.inj hget
      have hrest : slots.flatMap g = [] := by
        refine List.flatMap_eq_nil_iff.mpr fun d hd => ?_
        obtain ⟨j, hj⟩ := List.getElem?_of_mem hd
        exact halone (j + 1) d (Nat.succ_ne_zero j) hj
      rw [List.flatMap_cons, hrest, List.append_nil]
    | succ i =>
      rw [List.flatMap_cons, halone 0 c (Nat.succ_ne_zero i).symm rfl, List.nil_append]
      exact ih hget fun j d hj hd => halone (j + 1) d (fun h => hj (Nat.succ.inj h)) hd

theorem flatMap_set_of_alone (hget : slots[i]? = some a)
    (halone : ∀ j c, j ≠ i → slots[j]? = some c → g c = []) : (slots.set i b).flatMap g = g b := by
  refine flatMap_of_alone (List.getElem?_set_self (List.getElem?_eq_some_iff.mp hget).1)
    fun j c hj hc => ?_
  rw [List.getElem?_set_ne hj.symm] at hc
  exact halone j c hj hc

theorem flatMap_set_perm (hget : slots[i]? = some a) :
    ((slots.set i b).flatMap g ++ g a).Perm (g b ++ slots.flatMap g) := by
  induction slots generalizing i with
  | nil => cases hget
  | cons c slots ih =>
    cases i with
    | zero =>
      obtain rfl : c = a := Option.some.inj hget
      rw [List.set_cons_zero, List.flatMap_cons, List.flatMap_cons, List.append_assoc]
      exact List.perm_append_comm.append_left _
    | succ i =>
      rw [List.set_cons_succ, List.flatMap_cons, List.flatMap_cons, List.append_assoc]
      refine ((ih hget).append_left _).trans ?_
      rw [← List.append_assoc, ← List.append_assoc]
      exact List.perm_append_comm.append_right _

end Slots
