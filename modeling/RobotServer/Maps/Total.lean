import Mathlib.Algebra.BigOperators.Group.Finset.Piecewise
import Mathlib.Algebra.Order.BigOperators.Group.Finset
import Mathlib.Tactic.Abel

/-!
# Total — what all values of a map come to

Every value of a map on a finite type counts for something, and `total` is the sum.  A value that
is replaced takes its share with it (`total_update`).
-/

namespace Maps

variable {κ ν M : Type} [Fintype κ] [AddCommMonoid M]

def total (share : ν → M) (f : κ → ν) : M :=
  ∑ key, share (f key)

theorem total_congr {share share' : ν → M} {f f' : κ → ν}
    (h : ∀ key, share (f key) = share' (f' key)) : total share f = total share' f' :=
  Finset.sum_congr rfl fun key _ => h key

theorem total_eq_zero {share : ν → M} {f : κ → ν} (h : ∀ key, share (f key) = 0) :
    total share f = 0 :=
  Finset.sum_eq_zero fun key _ => h key

variable [DecidableEq κ]

theorem total_update (share : ν → M) (f : κ → ν) (key : κ) (value : ν) :
    total share (Function.update f key value) + share (f key) = total share f + share value := by
  have hupdate : ∀ k, share (Function.update f key value k) =
      Function.update (fun k => share (f k)) key (share value) k := fun k =>
    Function.apply_update (fun _ => share) f key value k
  have hnew : total share (Function.update f key value) =
      share value + ∑ k ∈ Finset.univ \ {key}, share (f k) := by
    rw [total, Finset.sum_congr rfl fun k _ => hupdate k,
      Finset.sum_update_of_mem (Finset.mem_univ key)]
  have hold : total share f = share (f key) + ∑ k ∈ Finset.univ \ {key}, share (f k) := by
    rw [total, ← Finset.add_sum_erase _ _ (Finset.mem_univ key), Finset.erase_eq]
  rw [hnew, hold]
  abel

/-- A value in the place of one that counts for nothing. -/
theorem total_gain {share : ν → M} {f : κ → ν} {key : κ} {value : ν} {gain : M}
    (hold : share (f key) = 0) (hnew : share value = gain) :
    total share (Function.update f key value) = total share f + gain := by
  have hupdate := total_update share f key value
  rwa [hold, hnew, add_zero] at hupdate

/-- A value whose place is taken by one that counts for nothing. -/
theorem total_loss {share : ν → M} {f : κ → ν} {key : κ} {value : ν} {loss : M}
    (hold : share (f key) = loss) (hnew : share value = 0) :
    total share (Function.update f key value) + loss = total share f := by
  have hupdate := total_update share f key value
  rwa [hold, hnew, add_zero] at hupdate

/-- A value that counts for the same leaves the total as it was. -/
theorem total_update_same [IsCancelAdd M] {share : ν → M} {f : κ → ν} {key : κ} {value : ν}
    (h : share value = share (f key)) :
    total share (Function.update f key value) = total share f := by
  have hupdate := total_update share f key value
  rw [h] at hupdate
  exact add_right_cancel hupdate

/-- Where the shares are collections and the total has no element twice, no two values share an
element. -/
theorem eq_of_mem_total {α : Type} [DecidableEq α] {share : ν → Multiset α} {f : κ → ν}
    (hnodup : (total share f).Nodup) {key key' : κ} {a : α} (h : a ∈ share (f key))
    (h' : a ∈ share (f key')) : key = key' := by
  by_contra hne
  let count : κ → Nat := fun k => (share (f k)).count a
  have hsum : (total share f).count a = ∑ k, count k := Multiset.count_sum'
  have hother : count key' ≤ ∑ k ∈ Finset.univ.erase key, count k :=
    Finset.single_le_sum (fun _ _ => Nat.zero_le _)
      (Finset.mem_erase.mpr ⟨Ne.symm hne, Finset.mem_univ _⟩)
  have hsplit : count key + ∑ k ∈ Finset.univ.erase key, count k = ∑ k, count k :=
    Finset.add_sum_erase Finset.univ count (Finset.mem_univ key)
  have hone := Multiset.nodup_iff_count_le_one.mp hnodup a
  have hfirst : 1 ≤ count key := Multiset.one_le_count_iff_mem.mpr h
  have hsecond : 1 ≤ count key' := Multiset.one_le_count_iff_mem.mpr h'
  omega

omit [DecidableEq κ] in
theorem mem_total {α : Type} {share : ν → Multiset α} {f : κ → ν} {key : κ} {a : α}
    (h : a ∈ share (f key)) : a ∈ total share f :=
  Multiset.mem_sum.mpr ⟨key, Finset.mem_univ key, h⟩

end Maps
