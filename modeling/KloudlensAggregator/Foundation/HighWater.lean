import Mathlib.Data.List.Basic
import Mathlib.Data.List.Induction
import Mathlib.Data.List.Infix
import Mathlib.Order.Lattice

/-!
# High-water marks

Items come from a node and have a position there.  A register gives its item up
for the next one, unless the next one lies behind it on the same node.  What the
register holds is then determined by the last incarnation: the longest suffix of
the items that come from one node.
-/

namespace KloudlensAggregator.Foundation

variable {α κ ν : Type*}

/-! ## The last incarnation -/

def ShareNode (node : α → κ) (items : List α) : Prop :=
  ∀ a ∈ items, ∀ b ∈ items, node a = node b

/-- The longest suffix of the items that come from one node. -/
structure IsIncarnation (node : α → κ) (items current : List α) : Prop where
  suffix : current <:+ items
  shared : ShareNode node current
  longest : ∀ other, other <:+ items → ShareNode node other → other <:+ current

section Incarnation

variable {node : α → κ} {items current other : List α} {a b : α}

theorem ShareNode.of_append_left {first second : List α}
    (h : ShareNode node (first ++ second)) : ShareNode node first :=
  fun a ha b hb => h a (List.mem_append_left _ ha) b (List.mem_append_left _ hb)

theorem ShareNode.concat (h : ShareNode node current) (ha : a ∈ current)
    (hnode : node b = node a) : ShareNode node (current ++ [b]) := by
  have hall : ∀ c ∈ current ++ [b], node c = node a := by
    intro c hc
    rcases List.mem_append.mp hc with hc | hc
    · exact h c hc a ha
    · rw [List.mem_singleton.mp hc, hnode]
  intro c hc d hd
  rw [hall c hc, hall d hd]

namespace IsIncarnation

theorem single (node : α → κ) (a : α) : IsIncarnation node [a] [a] where
  suffix := List.suffix_rfl
  shared := by
    intro b hb c hc
    rw [List.mem_singleton.mp hb, List.mem_singleton.mp hc]
  longest := fun _ hsuffix _ => hsuffix

theorem concat_same (h : IsIncarnation node items current) (ha : a ∈ current)
    (hnode : node b = node a) : IsIncarnation node (items ++ [b]) (current ++ [b]) where
  suffix := (List.suffix_append_inj_of_length_eq rfl).mpr ⟨h.suffix, rfl⟩
  shared := h.shared.concat ha hnode
  longest := by
    intro other hsuffix hshared
    rcases List.suffix_concat_iff.mp hsuffix with rfl | ⟨earlier, rfl, hearlier⟩
    · exact List.nil_suffix
    · have hlongest := h.longest earlier hearlier hshared.of_append_left
      exact (List.suffix_append_inj_of_length_eq rfl).mpr ⟨hlongest, rfl⟩

theorem concat_other (h : IsIncarnation node items current) (ha : a ∈ current)
    (hnode : node b ≠ node a) : IsIncarnation node (items ++ [b]) [b] where
  suffix := List.suffix_append items [b]
  shared := (single node b).shared
  longest := by
    intro other hsuffix hshared
    rcases List.suffix_concat_iff.mp hsuffix with rfl | ⟨earlier, rfl, hearlier⟩
    · exact List.nil_suffix
    · cases earlier with
      | nil => exact List.suffix_rfl
      | cons c rest =>
          -- An item of the suffix before `b` is in the last incarnation, on the node of `a`.
          have hcurrent := h.longest (c :: rest) hearlier hshared.of_append_left
          have hc : node c = node a :=
            h.shared c (hcurrent.mem List.mem_cons_self) a ha
          have hb : node b = node c :=
            hshared b (by simp) c (by simp)
          exact absurd (hb.trans hc) hnode

theorem unique (h : IsIncarnation node items current) (h' : IsIncarnation node items other) :
    current = other :=
  (h'.longest current h.suffix h.shared).eq_of_length_le
    (h.longest other h'.suffix h'.shared).length_le

end IsIncarnation

end Incarnation

/-! ## The last maximum -/

variable [LinearOrder ν]

def IsLastMax (seq : α → ν) (items : List α) (a : α) : Prop :=
  ∃ before after, items = before ++ a :: after ∧
    (∀ b ∈ before, seq b ≤ seq a) ∧ ∀ b ∈ after, seq b < seq a

section LastMax

variable {seq : α → ν} {items : List α} {a b : α}

namespace IsLastMax

theorem mem (h : IsLastMax seq items a) : a ∈ items := by
  obtain ⟨before, after, rfl, -, -⟩ := h
  simp

theorem le (h : IsLastMax seq items a) (hb : b ∈ items) : seq b ≤ seq a := by
  obtain ⟨before, after, rfl, hbefore, hafter⟩ := h
  rcases List.mem_append.mp hb with hb | hb
  · exact hbefore b hb
  · rcases List.mem_cons.mp hb with rfl | hb
    · exact le_rfl
    · exact (hafter b hb).le

theorem single (seq : α → ν) (a : α) : IsLastMax seq [a] a :=
  ⟨[], [], rfl, by simp, by simp⟩

theorem concat_lt (h : IsLastMax seq items a) (hlt : seq b < seq a) :
    IsLastMax seq (items ++ [b]) a := by
  obtain ⟨before, after, rfl, hbefore, hafter⟩ := h
  refine ⟨before, after ++ [b], by simp, hbefore, ?_⟩
  intro c hc
  rcases List.mem_append.mp hc with hc | hc
  · exact hafter c hc
  · rw [List.mem_singleton.mp hc]
    exact hlt

theorem concat_le (h : IsLastMax seq items a) (hle : seq a ≤ seq b) :
    IsLastMax seq (items ++ [b]) b :=
  ⟨items, [], rfl, fun _ hc => (h.le hc).trans hle, by simp⟩

private theorem eq_of_split {before before' after after' between : List α}
    (hbefore' : ∀ c ∈ before', seq c ≤ seq b) (hafter : ∀ c ∈ after, seq c < seq a)
    (hsplit : before' = before ++ between) (hrest : a :: after = between ++ b :: after') :
    a = b := by
  cases between with
  | nil => exact (List.cons.inj hrest).1
  | cons c between =>
      obtain ⟨rfl, rfl⟩ := List.cons.inj hrest
      have hlt : seq b < seq a := hafter b (by simp)
      have hle : seq a ≤ seq b := hbefore' a (by simp [hsplit])
      exact absurd hlt hle.not_gt

theorem unique (h : IsLastMax seq items a) (h' : IsLastMax seq items b) : a = b := by
  obtain ⟨before, after, rfl, hbefore, hafter⟩ := h
  obtain ⟨before', after', hitems, hbefore', hafter'⟩ := h'
  rcases List.append_eq_append_iff.mp hitems with
    ⟨between, hsplit, hrest⟩ | ⟨between, hsplit, hrest⟩
  · exact eq_of_split hbefore' hafter hsplit hrest
  · exact (eq_of_split hbefore hafter' hsplit hrest).symm

end IsLastMax

end LastMax

/-! ## The register -/

/-- The last item of maximal position in the last incarnation. -/
def IsHighWater (node : α → κ) (seq : α → ν) (items : List α) (a : α) : Prop :=
  ∃ current, IsIncarnation node items current ∧ IsLastMax seq current a

section Register

variable {node : α → κ} {seq : α → ν} {items : List α} {a b : α}

theorem IsHighWater.unique (h : IsHighWater node seq items a)
    (h' : IsHighWater node seq items b) : a = b := by
  obtain ⟨current, hcurrent, hmax⟩ := h
  obtain ⟨other, hother, hmax'⟩ := h'
  rw [hother.unique hcurrent] at hmax'
  exact hmax.unique hmax'

theorem IsHighWater.ne_nil (h : IsHighWater node seq items a) : items ≠ [] := by
  obtain ⟨current, hcurrent, hmax⟩ := h
  exact List.ne_nil_of_mem (hcurrent.suffix.mem hmax.mem)

variable [DecidableEq κ]

def advance (node : α → κ) (seq : α → ν) : Option α → α → Option α
  | none, a => some a
  | some held, a => if seq a < seq held ∧ node a = node held then some held else some a

theorem exists_advance_isHighWater (h : IsHighWater node seq items a) (b : α) :
    ∃ c, advance node seq (some a) b = some c ∧ IsHighWater node seq (items ++ [b]) c := by
  obtain ⟨current, hcurrent, hmax⟩ := h
  by_cases hnode : node b = node a
  · have hcurrent' := hcurrent.concat_same hmax.mem hnode
    rcases lt_or_ge (seq b) (seq a) with hlt | hge
    · exact ⟨a, by simp [advance, hlt, hnode], current ++ [b], hcurrent', hmax.concat_lt hlt⟩
    · exact ⟨b, by simp [advance, hge.not_gt], current ++ [b], hcurrent', hmax.concat_le hge⟩
  · exact ⟨b, by simp [advance, hnode], [b], hcurrent.concat_other hmax.mem hnode, .single seq b⟩

theorem exists_foldl_advance (node : α → κ) (seq : α → ν) (hne : items ≠ []) :
    ∃ a, items.foldl (advance node seq) none = some a ∧ IsHighWater node seq items a := by
  induction items using List.reverseRecOn with
  | nil => exact absurd rfl hne
  | append_singleton items b ih =>
      rw [List.foldl_append, List.foldl_cons, List.foldl_nil]
      cases items with
      | nil => exact ⟨b, rfl, [b], .single node b, .single seq b⟩
      | cons c items =>
          obtain ⟨a, hheld, hwater⟩ := ih (List.cons_ne_nil c items)
          rw [hheld]
          exact exists_advance_isHighWater hwater b

theorem foldl_advance_eq_none_iff :
    items.foldl (advance node seq) none = none ↔ items = [] := by
  constructor
  · intro hnone
    by_contra hne
    obtain ⟨a, hheld, -⟩ := exists_foldl_advance node seq hne
    rw [hnone] at hheld
    cases hheld
  · rintro rfl
    rfl

theorem foldl_advance_eq_some_iff :
    items.foldl (advance node seq) none = some a ↔ IsHighWater node seq items a := by
  constructor
  · intro hsome
    have hne : items ≠ [] := by
      rintro rfl
      cases hsome
    obtain ⟨b, hheld, hwater⟩ := exists_foldl_advance node seq hne
    rw [hsome, Option.some.injEq] at hheld
    rw [hheld]
    exact hwater
  · intro hwater
    obtain ⟨b, hheld, hwater'⟩ := exists_foldl_advance node seq hwater.ne_nil
    rw [hheld, hwater.unique hwater']

theorem exists_foldl_advance_le (seq : α → ν) (hnode : ∀ b ∈ items, node b = node a) :
    ∃ b, items.foldl (advance node seq) (some a) = some b ∧ node b = node a ∧ seq a ≤ seq b := by
  induction items generalizing a with
  | nil => exact ⟨a, rfl, rfl, le_rfl⟩
  | cons b items ih =>
      rw [List.forall_mem_cons] at hnode
      rw [List.foldl_cons]
      rcases lt_or_ge (seq b) (seq a) with hlt | hge
      · have hheld : advance node seq (some a) b = some a := by simp [advance, hlt, hnode.1]
        rw [hheld]
        exact ih hnode.2
      · have hheld : advance node seq (some a) b = some b := by simp [advance, hge.not_gt]
        have hitems : ∀ c ∈ items, node c = node b := by
          intro c hc
          rw [hnode.2 c hc, hnode.1]
        obtain ⟨c, hfold, hsame, hle⟩ := ih hitems
        rw [hheld]
        exact ⟨c, hfold, hsame.trans hnode.1, hge.trans hle⟩

end Register

end KloudlensAggregator.Foundation
