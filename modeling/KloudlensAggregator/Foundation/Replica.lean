import KloudlensAggregator.Foundation.Slice

/-!
# Replicas of a store

A store takes one change after the other, and its versions are numbered by them.
A replica that starts from some version and takes the changes behind it in their
order holds a version of the store, never a mixture of two.
-/

namespace KloudlensAggregator.Foundation

variable {store change : Type*}

def storeAt (apply : store → change → store) (init : store) (changes : List change) (n : Nat) :
    store :=
  (changes.take n).foldl apply init

theorem storeAt_succ {apply : store → change → store} (init : store) {changes : List change}
    {n : Nat} {c : change} (h : changes[n]? = some c) :
    storeAt apply init changes (n + 1) = apply (storeAt apply init changes n) c := by
  rw [storeAt, List.take_add_one, h, Option.toList_some, List.foldl_append]
  rfl

/-- What was taken one after the other belongs to versions that do not go back and do not
pass `high`. -/
inductive Ascends {α : Type*} (holds : α → Nat → Prop) : List α → Nat → Prop
  | nil (high : Nat) : Ascends holds [] high
  | concat {taken : List α} {a : α} {low version high : Nat} (hbefore : Ascends holds taken low)
      (hlow : low ≤ version) (ha : holds a version) (hhigh : version ≤ high) :
      Ascends holds (taken ++ [a]) high

namespace Ascends

variable {α : Type*} {holds : α → Nat → Prop} {taken : List α} {high high' : Nat}

theorem mono (h : Ascends holds taken high) (hle : high ≤ high') :
    Ascends holds taken high' := by
  cases h with
  | nil => exact .nil high'
  | concat hbefore hlow ha hhigh => exact .concat hbefore hlow ha (Nat.le_trans hhigh hle)

theorem filterMap {β : Type*} {holds' : β → Nat → Prop} {f : α → Option β}
    (h : Ascends holds taken high)
    (hf : ∀ a b version, f a = some b → holds a version → holds' b version) :
    Ascends holds' (taken.filterMap f) high := by
  induction h with
  | nil high => exact .nil high
  | @concat taken a low version high hbefore hlow ha hhigh ih =>
      rw [List.filterMap_append]
      cases hb : f a with
      | none =>
          simp only [List.filterMap_cons, hb, List.filterMap_nil, List.append_nil]
          exact ih.mono (Nat.le_trans hlow hhigh)
      | some b =>
          simp only [List.filterMap_cons, hb, List.filterMap_nil]
          exact .concat ih hlow (hf a b version hb ha) hhigh

theorem exists_of_mem (h : Ascends holds taken high) {a : α} (ha : a ∈ taken) :
    ∃ version ≤ high, holds a version := by
  induction h with
  | nil => cases ha
  | @concat taken last low version high hbefore hlow hlast hhigh ih =>
      rcases List.mem_append.mp ha with hold | hnew
      · obtain ⟨version', hle, hholds⟩ := ih hold
        exact ⟨version', by omega, hholds⟩
      · rw [List.mem_singleton.mp hnew]
        exact ⟨version, hhigh, hlast⟩

end Ascends

end KloudlensAggregator.Foundation
