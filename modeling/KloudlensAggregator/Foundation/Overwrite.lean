import Mathlib.Data.List.Sort

/-!
# Writers

A loop folds items into a state.  Seen through one slot of the state, an item
either writes a value or leaves the slot alone; the first or the last write
stays.  Where the writers of a slot agree, the order of the items is not seen.
-/

namespace KloudlensAggregator.Foundation

section Folds

variable {σ γ β : Type*} {step : σ → γ → σ}

theorem foldl_last_writer (view : σ → Option β) (write : γ → Option β)
    (hstep : ∀ s item, view (step s item) = (write item).or (view s)) (items : List γ) (s : σ) :
    view (items.foldl step s) = (items.reverse.findSome? write).or (view s) := by
  induction items generalizing s with
  | nil => rfl
  | cons item items ih =>
      rw [List.foldl_cons, ih, hstep, List.reverse_cons, List.findSome?_append, Option.or_assoc]
      congr 1
      cases hwrite : write item <;> simp [hwrite]

theorem foldl_first_writer (view : σ → Option β) (write : γ → Option β)
    (hstep : ∀ s item, view (step s item) = (view s).or (write item)) (items : List γ) (s : σ) :
    view (items.foldl step s) = (view s).or (items.findSome? write) := by
  induction items generalizing s with
  | nil => simp
  | cons item items ih =>
      rw [List.foldl_cons, ih, hstep, Option.or_assoc]
      congr 1
      cases hwrite : write item <;> simp [hwrite]

theorem foldl_collects (holds : σ → Prop) (adds : γ → Prop)
    (hstep : ∀ s item, holds (step s item) ↔ holds s ∨ adds item) (items : List γ) (s : σ) :
    holds (items.foldl step s) ↔ holds s ∨ ∃ item ∈ items, adds item := by
  induction items generalizing s with
  | nil => simp
  | cons item items ih =>
      rw [List.foldl_cons, ih, hstep, or_assoc]
      simp

theorem foldl_keeps (holds : σ → Prop) (hstep : ∀ s item, holds s → holds (step s item))
    (items : List γ) {s : σ} (hs : holds s) : holds (items.foldl step s) := by
  induction items generalizing s with
  | nil => exact hs
  | cons item items ih => exact ih (hstep s item hs)

end Folds

section Agreement

variable {γ β : Type*} {write : γ → Option β} {items order : List γ} {item : γ} {value : β}

/-- Any two items that write, write the same. -/
def Agree (write : γ → Option β) (items : List γ) : Prop :=
  ∀ item ∈ items, ∀ item' ∈ items, ∀ value value',
    write item = some value → write item' = some value' → value = value'

theorem exists_findSome?_eq (hitem : item ∈ items) (hwrite : write item = some value) :
    ∃ found, items.findSome? write = some found := by
  rw [← Option.isSome_iff_exists, List.findSome?_isSome_iff]
  exact ⟨item, hitem, Option.isSome_of_eq_some hwrite⟩

theorem Agree.findSome?_eq (hagree : Agree write items) (hitem : item ∈ items)
    (hwrite : write item = some value) : items.findSome? write = some value := by
  obtain ⟨found, hfound⟩ := exists_findSome?_eq hitem hwrite
  obtain ⟨first, hfirst, hwritten⟩ := List.exists_of_findSome?_eq_some hfound
  rw [hfound, hagree first hfirst item hitem found value hwritten hwrite]

theorem Agree.findSome?_perm (hagree : Agree write items) (hperm : order.Perm items) :
    order.findSome? write = items.findSome? write := by
  cases hfound : order.findSome? write with
  | none =>
      rw [List.findSome?_eq_none_iff] at hfound
      symm
      rw [List.findSome?_eq_none_iff]
      intro item hitem
      exact hfound item (hperm.mem_iff.mpr hitem)
  | some value =>
      obtain ⟨first, hfirst, hwritten⟩ := List.exists_of_findSome?_eq_some hfound
      exact (hagree.findSome?_eq (hperm.mem_iff.mp hfirst) hwritten).symm

theorem findSome?_flatMap {δ : Type*} (parts : δ → List γ) (wholes : List δ) :
    (wholes.flatMap parts).findSome? write =
      wholes.findSome? fun whole => (parts whole).findSome? write := by
  induction wholes with
  | nil => rfl
  | cons whole wholes ih =>
      rw [List.flatMap_cons, List.findSome?_append, ih]
      cases hfound : (parts whole).findSome? write <;> simp [hfound]

theorem findSome?_ite_eq [DecidableEq γ] (items : List γ) (item : γ) (value : β) :
    (items.findSome? fun other => if other = item then some value else none) =
      if item ∈ items then some value else none := by
  by_cases hitem : item ∈ items
  · rw [if_pos hitem]
    refine Agree.findSome?_eq ?_ hitem (if_pos rfl)
    intro other _ other' _ written written' hwrite hwrite'
    have heq := (Option.ite_none_right_eq_some.mp hwrite).2
    have heq' := (Option.ite_none_right_eq_some.mp hwrite').2
    exact Option.some.inj (heq.symm.trans heq')
  · rw [if_neg hitem, List.findSome?_eq_none_iff]
    intro other hother
    rw [if_neg]
    rintro rfl
    exact hitem hother

end Agreement

section Sorted

variable {α : Type*} [LE α] [DecidableLE α] [Std.Total (α := α) (· ≤ ·)]
  [IsTrans α (· ≤ ·)] [Std.Antisymm (α := α) (· ≤ ·)]

theorem insertionSort_eq_of_mem_iff {items items' : List α} (hnodup : items.Nodup)
    (hnodup' : items'.Nodup) (hmem : ∀ item, item ∈ items ↔ item ∈ items') :
    items.insertionSort (· ≤ ·) = items'.insertionSort (· ≤ ·) := by
  have hperm : items.Perm items' := (List.perm_ext_iff_of_nodup hnodup hnodup').mpr hmem
  refine List.Perm.eq_of_pairwise' (List.pairwise_insertionSort (· ≤ ·) items)
    (List.pairwise_insertionSort (· ≤ ·) items') ?_
  exact (List.perm_insertionSort _ _).trans (hperm.trans (List.perm_insertionSort _ _).symm)

end Sorted

end KloudlensAggregator.Foundation
