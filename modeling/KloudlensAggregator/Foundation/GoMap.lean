import Mathlib.Tactic
import Mathlib.Data.List.AList

/-!
# Maps

A Go map is an association list with distinct keys whose order says nothing.
`retain` is the loop that deletes entries while it ranges over the map.
-/

namespace KloudlensAggregator.Foundation

abbrev GoMap (α β : Type*) := AList fun _ : α => β

namespace GoMap

variable {α β : Type*} [DecidableEq α]

def retain (p : β → Bool) (m : GoMap α β) : GoMap α β :=
  ⟨m.entries.filter fun e => p e.2, m.nodupKeys.sublist List.filter_sublist⟩

theorem mem_entries_iff {m : GoMap α β} {k : α} {v : β} :
    (⟨k, v⟩ : Sigma fun _ : α => β) ∈ m.entries ↔ m.lookup k = some v :=
  AList.mem_lookup_iff.symm

theorem lookup_retain (p : β → Bool) (m : GoMap α β) (k : α) :
    (m.retain p).lookup k = (m.lookup k).filter p := by
  ext v
  rw [← mem_entries_iff, Option.filter_eq_some_iff, ← mem_entries_iff]
  exact List.mem_filter

theorem isEmpty_entries_iff {m : GoMap α β} :
    m.entries.isEmpty = true ↔ ∀ k, m.lookup k = none := by
  rw [List.isEmpty_iff]
  constructor
  · intro h k
    cases hlookup : m.lookup k with
    | none => rfl
    | some v =>
        have hmem := mem_entries_iff.mpr hlookup
        rw [h] at hmem
        cases hmem
  · intro h
    rw [List.eq_nil_iff_forall_not_mem]
    rintro ⟨k, v⟩ hmem
    have hlookup := mem_entries_iff.mp hmem
    rw [h k] at hlookup
    cases hlookup

theorem lookup_singleton (k k' : α) (v : β) :
    (AList.singleton k v : GoMap α β).lookup k' = if k = k' then some v else none := by
  by_cases hkey : k = k'
  · subst hkey
    rw [if_pos rfl]
    exact List.dlookup_cons_eq (β := fun _ => β) [] k v
  · rw [if_neg hkey]
    exact List.dlookup_cons_ne (β := fun _ => β) [] ⟨k, v⟩ (Ne.symm hkey)

theorem lookup_insert_or (m : GoMap α β) (k k' : α) (v : β) :
    (m.insert k v).lookup k' = (if k = k' then some v else none).or (m.lookup k') := by
  by_cases hkey : k = k'
  · subst hkey
    simp
  · rw [AList.lookup_insert_ne (Ne.symm hkey), if_neg hkey, Option.none_or]

theorem lookup_foldl_insert {γ : Type*} (key : γ → α) (value : γ → β) (items : List γ)
    (m : GoMap α β) (k : α) :
    (items.foldl (fun m item => m.insert (key item) (value item)) m).lookup k =
      ((items.reverse.find? fun item => key item = k).map value).or (m.lookup k) := by
  induction items generalizing m with
  | nil => rfl
  | cons item items ih =>
      rw [List.foldl_cons, ih, List.reverse_cons, List.find?_append]
      cases items.reverse.find? fun item => key item = k with
      | some later => rfl
      | none =>
          by_cases hkey : key item = k
          · subst hkey
            simp
          · rw [AList.lookup_insert_ne (Ne.symm hkey)]
            simp [hkey]

theorem find?_reverse_of_perm {m : GoMap α β} {order : List (Sigma fun _ : α => β)}
    (horder : order.Perm m.entries) (k : α) :
    (order.reverse.find? fun e => e.1 = k).map Sigma.snd = m.lookup k := by
  cases hfound : order.reverse.find? fun e => e.1 = k with
  | none =>
      rw [List.find?_eq_none] at hfound
      cases hlookup : m.lookup k with
      | none => rfl
      | some v =>
          have hmem := horder.mem_iff.mpr (mem_entries_iff.mpr hlookup)
          exact absurd (by simp) (hfound _ (List.mem_reverse.mpr hmem))
  | some e =>
      have hmem := horder.mem_iff.mp (List.mem_reverse.mp (List.mem_of_find?_eq_some hfound))
      have hkey := List.find?_some hfound
      rw [decide_eq_true_eq] at hkey
      subst hkey
      exact (mem_entries_iff.mp hmem).symm

def total (size : β → Nat) (m : GoMap α β) : Nat := (m.entries.map fun e => size e.2).sum

theorem total_erase (size : β → Nat) (m : GoMap α β) (k : α) :
    total size (m.erase k) + ((m.lookup k).map size).getD 0 = total size m := by
  obtain ⟨entries, hnodup⟩ := m
  change ((entries.kerase k).map fun e => size e.2).sum +
    ((entries.dlookup k).map size).getD 0 = (entries.map fun e => size e.2).sum
  clear hnodup
  induction entries with
  | nil => rfl
  | cons e entries ih =>
      obtain ⟨k', v⟩ := e
      by_cases hkey : k = k'
      · subst hkey
        have hrest : (⟨k, v⟩ :: entries : List (Sigma fun _ : α => β)).kerase k = entries :=
          List.kerase_cons_eq (β := fun _ => β) (s := ⟨k, v⟩) rfl
        rw [hrest, List.dlookup_cons_eq, List.map_cons, List.sum_cons]
        exact Nat.add_comm _ _
      · have hrest : (⟨k', v⟩ :: entries : List (Sigma fun _ : α => β)).kerase k =
            ⟨k', v⟩ :: entries.kerase k :=
          List.kerase_cons_ne (β := fun _ => β) (s := ⟨k', v⟩) hkey
        rw [hrest, List.dlookup_cons_ne (β := fun _ => β) _ ⟨k', v⟩ hkey, List.map_cons,
          List.map_cons, List.sum_cons, List.sum_cons, ← ih]
        exact Nat.add_assoc _ _ _

theorem total_insert (size : β → Nat) (m : GoMap α β) (k : α) (v : β) :
    total size (m.insert k v) + ((m.lookup k).map size).getD 0 = total size m + size v := by
  have herase := total_erase size m k
  have hinsert : total size (m.insert k v) = size v + total size (m.erase k) := rfl
  omega

end GoMap

/-- An order in which a loop may range over a map: it visits every entry once. -/
structure RangeOrder (α β : Type*) where
  visit : GoMap α β → List (Sigma fun _ : α => β)
  perm : ∀ m, (visit m).Perm m.entries

namespace RangeOrder

variable {α β : Type*}

def keys (order : RangeOrder α β) (m : GoMap α β) : List α := (order.visit m).map Sigma.fst

def values (order : RangeOrder α β) (m : GoMap α β) : List β := (order.visit m).map Sigma.snd

def forwards : RangeOrder α β := ⟨fun m => m.entries, fun _ => .refl _⟩

def backwards : RangeOrder α β := ⟨fun m => m.entries.reverse, fun m => m.entries.reverse_perm⟩

theorem exists_visit_eq {m : GoMap α β} {entries : List (Sigma fun _ : α => β)}
    (hperm : entries.Perm m.entries) : ∃ order : RangeOrder α β, order.visit m = entries := by
  classical
  refine ⟨⟨fun m' => if m' = m then entries else m'.entries, fun m' => ?_⟩, if_pos rfl⟩
  split
  · rename_i heq
    rw [heq]
    exact hperm
  · exact .refl _

theorem visit_empty (order : RangeOrder α β) : order.visit ∅ = [] := (order.perm ∅).eq_nil

theorem values_perm (order order' : RangeOrder α β) (m : GoMap α β) :
    (order.values m).Perm (order'.values m) := by
  have hvisits := (order.perm m).trans (order'.perm m).symm
  exact hvisits.map Sigma.snd

theorem nodup_keys (order : RangeOrder α β) (m : GoMap α β) : (order.keys m).Nodup :=
  ((order.perm m).map Sigma.fst).nodup_iff.mpr m.nodupKeys

variable [DecidableEq α]

theorem mem_keys {order : RangeOrder α β} {m : GoMap α β} {k : α} :
    k ∈ order.keys m ↔ ∃ v, m.lookup k = some v := by
  simp only [keys, List.mem_map, Sigma.exists, exists_and_right, exists_eq_right,
    (order.perm m).mem_iff, GoMap.mem_entries_iff]

theorem lookup_foldl_visit {γ : Type*} (order : RangeOrder α β) (m : GoMap α β) (f : α → β → γ)
    (k : α) :
    ((order.visit m).foldl (fun out e => out.insert e.1 (f e.1 e.2)) (∅ : GoMap α γ)).lookup k =
      (m.lookup k).map (f k) := by
  rw [GoMap.lookup_foldl_insert Sigma.fst (fun e : Sigma fun _ : α => β => f e.1 e.2),
    ← GoMap.find?_reverse_of_perm (order.perm m), AList.lookup_empty, Option.or_none]
  cases hfound : (order.visit m).reverse.find? fun e => e.1 = k with
  | none => rfl
  | some e =>
      have hkey := List.find?_some hfound
      rw [decide_eq_true_eq] at hkey
      subst hkey
      rfl

end RangeOrder

end KloudlensAggregator.Foundation
