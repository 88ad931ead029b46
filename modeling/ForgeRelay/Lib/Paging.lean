import Mathlib.Data.List.Nodup
import Mathlib.Data.List.Sort

/-!
# Pages of a list that grows

Page after page of a sorted list is read, while elements come and go. What is in the list all the
time is on one of the pages, as long as nothing goes that stands before it.
-/

namespace Paging

variable {α : Type} {r : α → α → Prop} {l before before' after after' : List α} {x : α}
  {offset limit : Nat}

/-- The page that begins at an offset. -/
def page (l : List α) (offset limit : Nat) : List α := (l.drop offset).take limit

private theorem length_page : (page l offset limit).length = min limit (l.length - offset) := by
  rw [page, List.length_take, List.length_drop]

private theorem mem_page (hoffset : offset ≤ before.length)
    (hlimit : before.length < offset + limit) :
    x ∈ page (before ++ x :: after) offset limit := by
  rw [page, List.drop_append_of_le_length hoffset, List.take_append]
  apply List.mem_append_right
  obtain ⟨more, hmore⟩ : ∃ more, limit - (before.drop offset).length = more + 1 := by
    rw [List.length_drop]
    exact ⟨limit - (before.length - offset) - 1, by omega⟩
  rw [hmore, List.take_succ_cons]
  exact List.mem_cons_self

private theorem rank_le (hnodup : (before ++ x :: after).Nodup)
    (hsorted : (before ++ x :: after).Pairwise r) (hsorted' : (before' ++ x :: after').Pairwise r)
    (hantisymm : ∀ a ∈ before, r a x → r x a → a = x)
    (hkeeps : ∀ a ∈ before, a ∈ before' ++ x :: after') : before.length ≤ before'.length := by
  obtain ⟨-, -, hbefore⟩ := List.pairwise_append.mp hsorted
  obtain ⟨-, hafter, -⟩ := List.pairwise_append.mp hsorted'
  have hdistinct := (List.nodup_append.mp hnodup).2.2
  have hsubset : before ⊆ before' := by
    intro a ha
    have hne : a ≠ x := hdistinct a ha x List.mem_cons_self
    have hax : r a x := hbefore a ha x List.mem_cons_self
    rcases List.mem_append.mp (hkeeps a ha) with hmem | hmem
    · exact hmem
    · rcases List.mem_cons.mp hmem with heq | hmem
      · exact absurd heq hne
      · exact absurd (hantisymm a ha hax (List.rel_of_pairwise_cons hafter hmem)) hne
  exact (List.subperm_of_subset (List.nodup_append.mp hnodup).1 hsubset).length_le

/-- Lists, one for each page, which keep an element and what stands before it. -/
structure Keeps (r : α → α → Prop) (lists : Nat → List α) (pages : Nat) (x : α) : Prop where
  sorted : ∀ k ≤ pages, (lists k).Pairwise r
  nodup : ∀ k ≤ pages, (lists k).Nodup
  antisymm : ∀ k ≤ pages, ∀ a ∈ lists k, r a x → r x a → a = x
  mem : ∀ k ≤ pages, x ∈ lists k
  keeps : ∀ k < pages, ∀ a ∈ lists k, r a x → a ∈ lists (k + 1)

variable {lists : Nat → List α} {pages : Nat}

private theorem Keeps.ahead (h : Keeps r lists pages x) {k : Nat} (hk : k ≤ pages)
    (hmissed : ∀ j < k, x ∉ page (lists j) (j * limit) limit) :
    ∃ before after, lists k = before ++ x :: after ∧ k * limit ≤ before.length := by
  induction k with
  | zero =>
    obtain ⟨before, after, hlist⟩ := List.append_of_mem (h.mem 0 hk)
    exact ⟨before, after, hlist, by omega⟩
  | succ k ih =>
    obtain ⟨before, after, hlist, hrank⟩ := ih (by omega) fun j hj => hmissed j (by omega)
    obtain ⟨before', after', hlist'⟩ := List.append_of_mem (h.mem (k + 1) hk)
    have hsorted := h.sorted k (by omega)
    have hsorted' := h.sorted (k + 1) hk
    have hnodup := h.nodup k (by omega)
    rw [hlist] at hsorted hnodup
    rw [hlist'] at hsorted'
    have hmem : ∀ a ∈ before, a ∈ lists k := by
      intro a ha
      rw [hlist]
      exact List.mem_append_left _ ha
    have hle : before.length ≤ before'.length := by
      apply rank_le hnodup hsorted hsorted'
      · exact fun a ha => h.antisymm k (by omega) a (hmem a ha)
      · intro a ha
        rw [← hlist']
        apply h.keeps k (by omega) a (hmem a ha)
        exact (List.pairwise_append.mp hsorted).2.2 a ha x List.mem_cons_self
    have hbehind : k * limit + limit ≤ before.length := by
      by_contra hlt
      apply hmissed k (by omega)
      rw [hlist]
      exact mem_page hrank (by omega)
    refine ⟨before', after', hlist', ?_⟩
    rw [Nat.succ_mul]
    omega

theorem Keeps.exists_page (h : Keeps r lists pages x)
    (hshort : (page (lists pages) (pages * limit) limit).length < limit) :
    ∃ k ≤ pages, x ∈ page (lists k) (k * limit) limit := by
  by_contra hnone
  push Not at hnone
  obtain ⟨before, after, hlist, hrank⟩ := h.ahead le_rfl fun j hj => hnone j (by omega)
  apply hnone pages le_rfl
  rw [length_page, hlist, List.length_append, List.length_cons] at hshort
  rw [hlist]
  exact mem_page hrank (by omega)

end Paging
