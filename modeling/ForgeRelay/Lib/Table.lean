import Mathlib.Data.List.Basic
import Mathlib.Data.List.Forall2
import Mathlib.Data.List.Nodup
import Mathlib.Data.List.Sort

/-!
# Tables as lists of rows

What `UPDATE`, `DELETE` and `INSERT` do to a table without an order of its own, and what they
keep: the keys of the rows they do not remove.
-/

namespace Table

variable {α κ : Type}

/-- `UPDATE ... SET f WHERE p`. -/
def update (p : α → Bool) (f : α → α) (rows : List α) : List α :=
  rows.map fun r => if p r then f r else r

/-- `DELETE ... WHERE p`. -/
def delete (p : α → Bool) (rows : List α) : List α := rows.filter fun r => !p r

@[simp] theorem mem_update {p : α → Bool} {f : α → α} {rows : List α} {r : α} :
    r ∈ update p f rows ↔ ∃ r₀ ∈ rows, (if p r₀ then f r₀ else r₀) = r :=
  List.mem_map

@[simp] theorem mem_delete {p : α → Bool} {rows : List α} {r : α} :
    r ∈ delete p rows ↔ r ∈ rows ∧ p r = false := by
  simp [delete]

theorem update_cons (p : α → Bool) (f : α → α) (r : α) (rows : List α) :
    update p f (r :: rows) = (if p r then f r else r) :: update p f rows := rfl

theorem mem_update_of_not {p : α → Bool} {f : α → α} {rows : List α} {r : α} (hr : r ∈ rows)
    (hp : p r = false) : r ∈ update p f rows :=
  mem_update.mpr ⟨r, hr, by simp [hp]⟩

theorem update_of_none {p : α → Bool} {f : α → α} {rows : List α} (h : ∀ r ∈ rows, p r = false) :
    update p f rows = rows := by
  rw [update]
  exact (List.map_congr_left fun r hr => by rw [h r hr]; rfl).trans (List.map_id _)

theorem update_congr {p q : α → Bool} {f : α → α} {rows : List α} (h : ∀ r ∈ rows, p r = q r) :
    update p f rows = update q f rows :=
  List.map_congr_left fun r hr => by rw [h r hr]

theorem delete_of_none {p : α → Bool} {rows : List α} (h : ∀ r ∈ rows, p r = false) :
    delete p rows = rows :=
  List.filter_eq_self.mpr fun r hr => by rw [h r hr]; rfl

theorem delete_cons_of_pos {p : α → Bool} {r : α} (rows : List α) (h : p r = true) :
    delete p (r :: rows) = delete p rows := by
  simp [delete, h]

theorem delete_comm (p q : α → Bool) (rows : List α) :
    delete p (delete q rows) = delete q (delete p rows) := by
  simp only [delete, List.filter_filter, Bool.and_comm]

theorem update_delete {p q : α → Bool} {f : α → α} (hq : ∀ r, q (f r) = q r) (rows : List α) :
    update p f (delete q rows) = delete q (update p f rows) := by
  rw [update, update, delete, delete, List.filter_map]
  refine congrArg _ (List.filter_congr fun r _ => ?_)
  dsimp only [Function.comp_apply]
  split
  · rw [hq]
  · rfl

theorem find?_delete {p q : α → Bool} (h : ∀ r, q r = true → p r = false) (rows : List α) :
    (delete p rows).find? q = rows.find? q := by
  rw [delete, List.find?_filter]
  refine congrArg (rows.find? ·) (funext fun r => ?_)
  cases hr : q r with
  | true => simp [h r hr]
  | false => simp

theorem find?_update {p q : α → Bool} {f : α → α} (hq : ∀ r, q (f r) = q r) (rows : List α) :
    (update p f rows).find? q = (rows.find? q).map fun r => if p r then f r else r := by
  have hcomp : (q ∘ fun r => if p r then f r else r) = q := by
    funext r
    by_cases hp : p r = true <;> simp [hp, hq]
  rw [update, List.find?_map, hcomp]

theorem map_update {p : α → Bool} {f : α → α} (key : α → κ)
    (hkey : ∀ r, key (f r) = key r) (rows : List α) : (update p f rows).map key = rows.map key := by
  rw [update, List.map_map]
  refine List.map_congr_left fun r _ => ?_
  by_cases hp : p r = true <;> simp [hp, hkey]

theorem nodup_delete {p : α → Bool} {key : α → κ} {rows : List α} (h : (rows.map key).Nodup) :
    ((delete p rows).map key).Nodup :=
  h.sublist (List.filter_sublist.map key)

theorem eq_of_key {key : α → κ} {rows : List α} (h : (rows.map key).Nodup) {a b : α}
    (ha : a ∈ rows) (hb : b ∈ rows) (hkey : key a = key b) : a = b :=
  List.inj_on_of_nodup_map h ha hb hkey

theorem nodup_append {key : α → κ} {rows : List α} {r : α} (h : (rows.map key).Nodup)
    (hnew : key r ∉ rows.map key) : ((rows ++ [r]).map key).Nodup := by
  rw [List.map_append, List.map_singleton]
  exact List.nodup_append.mpr ⟨h, List.nodup_singleton _, fun a ha b hb => by
    rw [List.mem_singleton] at hb
    rintro rfl
    exact hnew (hb ▸ ha)⟩

theorem orderBy_eq {key : α → Int} {rows sorted : List α} (hperm : rows.Perm sorted)
    (hsorted : sorted.Pairwise fun a b => key a < key b) :
    rows.insertionSort (fun a b => key a ≤ key b) = sorted := by
  have hnodup : (sorted.map key).Nodup :=
    List.pairwise_map.mpr (hsorted.imp fun h => ne_of_lt h)
  have : Std.Total fun a b : α => key a ≤ key b := ⟨fun a b => le_total (key a) (key b)⟩
  have : IsTrans α fun a b => key a ≤ key b := ⟨fun _ _ _ h h' => le_trans h h'⟩
  have hsort := List.perm_insertionSort (fun a b => key a ≤ key b) rows
  refine (hsort.trans hperm).eq_of_pairwise (fun a b ha hb hab hba => ?_)
    (List.pairwise_insertionSort _ rows) (hsorted.imp fun h => le_of_lt h)
  exact eq_of_key hnodup ((hsort.trans hperm).mem_iff.mp ha) hb (le_antisymm hab hba)

theorem exists_of_mem_left {β : Type} {R : α → β → Prop} {rows : List α} {records : List β}
    (h : List.Forall₂ R rows records) {a : α} (ha : a ∈ rows) : ∃ b ∈ records, R a b := by
  induction h with
  | nil => cases ha
  | @cons r b rows records hr _ ih =>
    rcases List.mem_cons.mp ha with rfl | ha
    · exact ⟨b, List.mem_cons_self, hr⟩
    · obtain ⟨b', hb', hab⟩ := ih ha
      exact ⟨b', List.mem_cons_of_mem _ hb', hab⟩

theorem exists_of_mem_right {β : Type} {R : α → β → Prop} {rows : List α} {records : List β}
    (h : List.Forall₂ R rows records) {b : β} (hb : b ∈ records) : ∃ a ∈ rows, R a b :=
  exists_of_mem_left (R := flip R) h.flip hb

end Table
