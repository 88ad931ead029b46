import Mathlib.Data.List.Basic

/-!
# Cutting a list into slices of one size

All slices but the last have the full size; in order they make up the list.
-/

namespace Slices

variable {α : Type}

/-- The slice with this number. -/
def slice (xs : List α) (size i : Nat) : List α := (xs.drop (i * size)).take size

/-- The number of slices of a list of length `n`. -/
def count (n size : Nat) : Nat := (n + size - 1) / size

/-- All slices in order. -/
def slices (xs : List α) (size : Nat) : List (List α) :=
  (List.range (count xs.length size)).map (slice xs size)

theorem slice_length_le (xs : List α) (size i : Nat) : (slice xs size i).length ≤ size := by
  rw [slice, List.length_take]
  exact Nat.min_le_left _ _

theorem lt_of_lt_count {n size i : Nat} (h : i < count n size) : i * size < n := by
  have hsize : 0 < size := by
    rcases Nat.eq_zero_or_pos size with rfl | hpos
    · simp [count] at h
    · exact hpos
  have hle : (i + 1) * size ≤ n + size - 1 := (Nat.le_div_iff_mul_le hsize).mp h
  rw [Nat.add_mul, Nat.one_mul] at hle
  omega

theorem slice_length_pos {xs : List α} {size i : Nat} (h : i < count xs.length size) :
    0 < (slice xs size i).length := by
  have hlt := lt_of_lt_count h
  have hsize : 0 < size := by
    rcases Nat.eq_zero_or_pos size with rfl | hpos
    · simp [count] at h
    · exact hpos
  rw [slice, List.length_take, List.length_drop]
  omega

private theorem flatten_map_slice (xs : List α) (size n : Nat) :
    ((List.range n).map (slice xs size)).flatten = xs.take (n * size) := by
  induction n with
  | zero => simp
  | succ n ih =>
    rw [List.range_succ, List.map_append, List.flatten_append, ih, List.map_singleton,
      List.flatten_singleton, slice, Nat.add_mul, Nat.one_mul, List.take_add]

private theorem le_count_mul (n : Nat) {size : Nat} (hsize : 0 < size) :
    n ≤ count n size * size := by
  have hmod := Nat.div_add_mod (n + size - 1) size
  have hlt := Nat.mod_lt (n + size - 1) hsize
  rw [count, Nat.mul_comm]
  omega

theorem flatten_slices (xs : List α) {size : Nat} (hsize : 0 < size) :
    (slices xs size).flatten = xs := by
  rw [slices, flatten_map_slice, List.take_of_length_le (le_count_mul _ hsize)]

@[simp] theorem slices_length (xs : List α) (size : Nat) :
    (slices xs size).length = count xs.length size := by
  rw [slices, List.length_map, List.length_range]

theorem mem_slices {xs data : List α} {size : Nat} :
    data ∈ slices xs size ↔ ∃ i < count xs.length size, slice xs size i = data := by
  simp [slices]

end Slices
