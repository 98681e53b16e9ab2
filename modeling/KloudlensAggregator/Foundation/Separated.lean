import Mathlib.Data.List.Basic
import Mathlib.Data.List.Induction

/-!
# Separated occurrences

In a log, two occurrences of one kind with one of another kind between them.
The log grows at its end, and what has to be known of it for the next occurrence
is whether the last one is settled.
-/

namespace KloudlensAggregator.Foundation

variable {α : Type*} {P Q : α → Prop} {items : List α} {b : α}

/-- Between any two items with `P` there is one with `Q`. -/
def Separated (P Q : α → Prop) (items : List α) : Prop :=
  ∀ before a between b after, items = before ++ a :: (between ++ b :: after) →
    P a → P b → ∃ c ∈ between, Q c

def Settled (P Q : α → Prop) (items : List α) : Prop :=
  ∀ before a after, items = before ++ a :: after → P a → ∃ c ∈ after, Q c

theorem settled_nil : Settled P Q [] := by
  intro before a after hitems
  simp at hitems

theorem separated_nil : Separated P Q [] := by
  intro before a between b after hitems
  simp at hitems

theorem concat_eq_append_cons {before after : List α} {a : α}
    (h : items ++ [b] = before ++ a :: after) :
    (after = [] ∧ items = before ∧ b = a) ∨
      ∃ after', after = after' ++ [b] ∧ items = before ++ a :: after' := by
  rcases List.eq_nil_or_concat after with rfl | ⟨after', c, rfl⟩
  · have hparts := List.append_inj' h rfl
    exact .inl ⟨rfl, hparts.1, (List.cons.inj hparts.2).1⟩
  · rw [List.concat_eq_append, ← List.cons_append, ← List.append_assoc] at h
    have hparts := List.append_inj' h rfl
    rw [List.concat_eq_append, (List.cons.inj hparts.2).1]
    exact .inr ⟨after', rfl, hparts.1⟩

theorem Settled.concat (h : Settled P Q items) (hb : ¬ P b) : Settled P Q (items ++ [b]) := by
  intro before a after hitems ha
  rcases concat_eq_append_cons hitems with ⟨-, -, rfl⟩ | ⟨after', rfl, hbefore⟩
  · exact absurd ha hb
  · obtain ⟨c, hc, hQ⟩ := h before a after' hbefore ha
    exact ⟨c, List.mem_append_left _ hc, hQ⟩

theorem settled_concat (hb : ¬ P b) (hQ : Q b) : Settled P Q (items ++ [b]) := by
  intro before a after hitems ha
  rcases concat_eq_append_cons hitems with ⟨-, -, rfl⟩ | ⟨after', rfl, -⟩
  · exact absurd ha hb
  · exact ⟨b, by simp, hQ⟩

theorem Separated.concat (h : Separated P Q items) (hb : ¬ P b) :
    Separated P Q (items ++ [b]) := by
  intro before a between c after hitems ha hc
  rw [← List.cons_append, ← List.append_assoc] at hitems
  rcases concat_eq_append_cons hitems with ⟨-, -, rfl⟩ | ⟨after', rfl, hbefore⟩
  · exact absurd hc hb
  · refine h before a between c after' ?_ ha hc
    rw [hbefore, List.append_assoc, List.cons_append]

theorem Separated.concat_of_settled (h : Separated P Q items) (hsettled : Settled P Q items) :
    Separated P Q (items ++ [b]) := by
  intro before a between c after hitems ha hc
  rw [← List.cons_append, ← List.append_assoc] at hitems
  rcases concat_eq_append_cons hitems with ⟨-, hbefore, -⟩ | ⟨after', rfl, hbefore⟩
  · exact hsettled before a between hbefore ha
  · refine h before a between c after' ?_ ha hc
    rw [hbefore, List.append_assoc, List.cons_append]

end KloudlensAggregator.Foundation
