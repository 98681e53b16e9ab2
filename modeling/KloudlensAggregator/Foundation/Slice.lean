import Mathlib.Tactic

/-!
# Slices of a list

`slice xs low high` is the part of `xs` behind the first `low` elements and up
to the first `high`, so that adjacent slices concatenate.
-/

namespace KloudlensAggregator.Foundation

variable {α β : Type*}

def slice (xs : List α) (low high : Nat) : List α := (xs.take high).drop low

theorem slice_eq_nil (xs : List α) {low high : Nat} (h : high ≤ low) :
    slice xs low high = [] := by
  simp only [slice, List.drop_eq_nil_iff, List.length_take]
  omega

theorem slice_append_slice (xs : List α) {low middle high : Nat}
    (hlow : low ≤ middle) (hhigh : middle ≤ high) :
    slice xs low middle ++ slice xs middle high = slice xs low high := by
  have hsplit : xs.take high = xs.take middle ++ (xs.take high).drop middle := by
    conv_lhs => rw [← List.take_append_drop middle (xs.take high)]
    rw [List.take_take, Nat.min_eq_left hhigh]
  by_cases hlength : low ≤ (xs.take middle).length
  · rw [slice, slice, slice, hsplit, List.drop_append_of_le_length hlength, ← hsplit]
  · simp only [List.length_take] at hlength
    have hnil : ∀ high', low ≤ high' → slice xs low high' = [] := by
      intro high' h
      simp only [slice, List.drop_eq_nil_iff, List.length_take]
      omega
    have hnil' : slice xs middle high = [] := by
      simp only [slice, List.drop_eq_nil_iff, List.length_take]
      omega
    rw [hnil middle hlow, hnil high (by omega), hnil', List.append_nil]

theorem slice_succ {xs : List α} {low high : Nat} {x : α} (hlow : low ≤ high)
    (h : xs[high]? = some x) : slice xs low (high + 1) = slice xs low high ++ [x] := by
  obtain ⟨hlength, hx⟩ := List.getElem?_eq_some_iff.mp h
  have hlast : slice xs high (high + 1) = [x] := by
    rw [slice, List.take_succ_eq_append_getElem hlength, hx]
    simp [Nat.min_eq_left (Nat.le_of_lt hlength)]
  rw [← hlast, slice_append_slice xs hlow (by omega)]

theorem slice_eq_cons {xs : List α} {low high : Nat} {x : α} (hlow : low < high)
    (h : xs[low]? = some x) : slice xs low high = x :: slice xs (low + 1) high := by
  have hfirst : slice xs low (low + 1) = [x] := by
    rw [slice_succ (Nat.le_refl low) h, slice_eq_nil xs (Nat.le_refl low)]
    rfl
  rw [← slice_append_slice xs (Nat.le_succ low) hlow, hfirst]
  rfl

theorem slice_zero_length (xs : List α) : slice xs 0 xs.length = xs := by
  simp [slice]

theorem slice_append_left (xs ys : List α) {low high : Nat}
    (h : high ≤ xs.length) : slice (xs ++ ys) low high = slice xs low high := by
  rw [slice, slice, List.take_append_of_le_length h]

theorem slice_take (xs : List α) {low high bound : Nat} (h : high ≤ bound) :
    slice (xs.take bound) low high = slice xs low high := by
  rw [slice, slice, List.take_take, Nat.min_eq_left h]

theorem mem_slice {xs : List α} {low high : Nat} {x : α} :
    x ∈ slice xs low high ↔ ∃ i, low ≤ i ∧ i < high ∧ xs[i]? = some x := by
  rw [slice, List.mem_iff_getElem?]
  constructor
  · rintro ⟨i, hi⟩
    rw [List.getElem?_drop, List.getElem?_take] at hi
    split at hi
    · exact ⟨low + i, by omega, by omega, hi⟩
    · cases hi
  · rintro ⟨i, hlow, hhigh, hi⟩
    refine ⟨i - low, ?_⟩
    rw [List.getElem?_drop, List.getElem?_take, Nat.add_sub_cancel' hlow, if_pos hhigh, hi]

theorem filterMap_getElem?_range (xs : List α) :
    (List.range xs.length).filterMap (fun i => xs[i]?) = xs := by
  induction xs using List.reverseRecOn with
  | nil => rfl
  | append_singleton xs x ih =>
      have hinit : ∀ i ∈ List.range xs.length, (xs ++ [x])[i]? = xs[i]? := by
        intro i hi
        exact List.getElem?_append_left (List.mem_range.mp hi)
      rw [List.length_append, List.length_singleton, List.range_succ, List.filterMap_append,
        List.filterMap_congr hinit, ih]
      simp

end KloudlensAggregator.Foundation
