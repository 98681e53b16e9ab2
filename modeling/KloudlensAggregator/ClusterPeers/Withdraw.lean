import KloudlensAggregator.ClusterPeers.Refinement

/-!
# Withdraws

`Remove` retires the entry under the key of a withdraw, whoever advertised it.  A
binder is a bind address and a pod; several binders can share a key.  When the entry
is that of the withdrawing binder, each lookup goes on as if its answer had been
erased, and a `Join` that answers with another binder answers with it still.
-/

namespace KloudlensAggregator.ClusterPeers

open KloudlensAggregator.Foundation

def Listener.SameBinder (w l : Listener) : Prop :=
  w.addr = l.addr ∧ w.namespace_ = l.namespace_ ∧ w.pod = l.pod

instance (w l : Listener) : Decidable (w.SameBinder l) :=
  inferInstanceAs (Decidable (_ ∧ _ ∧ _))

/-- The addresses of Services are not those of pods. -/
def Resolvers.Separate (env : Resolvers) : Prop :=
  ∀ resolveVIP, env.svc = some resolveVIP → ∃ podForIP, env.podLoc = some podForIP ∧
    ∀ addr host port, splitHostPort addr = some (host, port) → (resolveVIP addr).isSome = true →
      podForIP host = none

namespace Registry

def otherWild (r : Registry) (now : Int) (w : Listener) :
    List (Sigma fun _ : String => Listener) :=
  (r.liveWildEntries (":" ++ portOf w.port w.addr) now).filter fun e =>
    w.key ≠ some (.wild (":" ++ portOf w.port w.addr) e.1)

/-- No wildcard listener comes to light with the withdraw.  Behind a wildcard bind that is one
which is then alone on its port; a pod locator gives it no address but those of its pod,
unless there is a pod of the same name in another namespace. -/
def StaysHidden (r : Registry) (env : Resolvers) (now : Int) (w : Listener) : Prop :=
  if w.wildcard then
    match env.podLoc with
    | none => (r.otherWild now w).length ≠ 1
    | some podForIP => ∀ e, r.otherWild now w = [e] → ∀ host ns,
        podForIP host = some (ns, e.2.pod) → podIdent ns e.2.pod = e.1
  else r.liveWild env w.addr now = none

/-- A live entry under the key of the withdraw is its own, and nothing comes to light
without it. -/
def Spares (r : Registry) (env : Resolvers) (now : Int) (w : Listener) : Prop :=
  ∀ key ∈ w.key, ∀ l ∈ r.liveEntry now key, w.SameBinder l ∧ r.StaysHidden env now w

/-- Every `Join` that answers with another binder than `w` answers with it in `r'` too. -/
def Keeps (r : Registry) (now : Int) (env : Resolvers) (w : Listener) (r' : Registry) : Prop :=
  ∀ connectAddr l how, r.join env connectAddr now = some (l, how) → ¬ w.SameBinder l →
    ∃ l', r'.join env connectAddr now = some (l', how) ∧ l'.advertised = l.advertised

def Erases (own : Listener) (before after : Option Listener) : Prop :=
  after = before ∨ (before = some own ∧ after = none)

namespace Erases

variable {own l : Listener} {before after : Option Listener}

private theorem eq_none (h : Erases own before after) (hnone : before = none) : after = none := by
  rcases h with hsame | ⟨-, hafter⟩
  · rw [hsame, hnone]
  · exact hafter

private theorem eq_some (h : Erases own before after) (hsome : before = some l) (hne : l ≠ own) :
    after = some l := by
  rcases h with hsame | ⟨hown, -⟩
  · rw [hsame, hsome]
  · rw [hsome, Option.some.injEq] at hown
    exact absurd hown hne

private theorem filterMap_sublist {α : Type*} {before after : α → Option Listener}
    (h : ∀ a, Erases own (before a) (after a)) (items : List α) :
    (items.filterMap after).Sublist (items.filterMap before) := by
  induction items with
  | nil => exact List.Sublist.refl _
  | cons a items ih =>
      rcases h a with hsame | ⟨hown, hafter⟩
      · cases hbefore : before a with
        | none => simpa [hbefore, hsame] using ih
        | some l => simpa [hbefore, hsame] using ih
      · simpa [hown, hafter] using ih.trans (List.sublist_cons_self _ _)

private theorem filterMap_eq_cons {α : Type*} {before after : α → Option Listener}
    (h : ∀ a, Erases own (before a) (after a)) {items : List α} {others : List Listener}
    (hbefore : items.filterMap before = l :: others) (hne : l ≠ own) :
    ∃ rest, items.filterMap after = l :: rest ∧ rest.Sublist others := by
  induction items with
  | nil => cases hbefore
  | cons a items ih =>
      cases ha : before a with
      | none =>
          have hafter := (h a).eq_none ha
          simp only [List.filterMap_cons_none ha, List.filterMap_cons_none hafter] at hbefore ⊢
          exact ih hbefore
      | some m =>
          rw [List.filterMap_cons_some ha, List.cons.injEq] at hbefore
          obtain ⟨rfl, hothers⟩ := hbefore
          rw [List.filterMap_cons_some ((h a).eq_some ha hne)]
          exact ⟨_, rfl, hothers ▸ filterMap_sublist h items⟩

end Erases

/-! ## What a withdraw does to the live entries -/

variable {r : Registry} {env : Resolvers} {now : Int} {w own : Listener} {key : Key}

private theorem liveEntry_remove (r : Registry) (now : Int) (w : Listener) (key : Key) :
    (r.remove w).liveEntry now key = if w.key = some key then none else r.liveEntry now key := by
  simp only [liveEntry, entry_remove]
  split <;> rfl

private theorem sameLive_remove (h : ∀ key, w.key = some key → r.liveEntry now key = none) :
    SameLive now (r.remove w) r := by
  intro key
  rw [liveEntry_remove]
  split
  · rename_i hkey
    exact (h key hkey).symm
  · rfl

private theorem liveWildEntries_remove (r : Registry) (now : Int) (w : Listener)
    (portKey : String) :
    ((r.remove w).liveWildEntries portKey now).Perm
      ((r.liveWildEntries portKey now).filter fun e => w.key ≠ some (.wild portKey e.1)) := by
  apply (List.perm_ext_iff_of_nodup (nodup_liveWildEntries _ portKey now)
    ((r.nodup_liveWildEntries portKey now).filter _)).mpr
  rintro ⟨ident, l⟩
  rw [mem_liveWildEntries, List.mem_filter, mem_liveWildEntries, liveEntry_remove]
  by_cases hkey : w.key = some (.wild portKey ident) <;> simp [hkey]

private theorem soleLiveWild_eq_none {portKey : String}
    (h : (r.liveWildEntries portKey now).length ≠ 1) :
    r.soleLiveWild portKey now = none := by
  unfold soleLiveWild
  split
  · rename_i e hentries
    simp [hentries] at h
  · rfl

private theorem port_of_key {portKey ident : String} (h : w.key = some (.wild portKey ident)) :
    w.wildcard = true ∧ portKey = ":" ++ portOf w.port w.addr := by
  unfold Listener.key at h
  split at h
  · cases h
  · split at h
    · rename_i hwild
      split at h
      · cases h
      · cases h
        exact ⟨hwild, rfl⟩
    · cases h

private theorem addr_of_key {addr : String} (h : w.key = some (.exact addr)) :
    w.wildcard = false ∧ w.addr = addr := by
  unfold Listener.key at h
  split at h
  · cases h
  · split at h
    · split at h <;> cases h
    · rename_i hexact
      cases h
      exact ⟨Bool.eq_false_iff.mpr hexact, rfl⟩

/-! ## What a withdraw does to the lookups -/

private theorem liveWildEntries_remove_own {portKey ident : String}
    (hkey : w.key = some (.wild portKey ident)) :
    ((r.remove w).liveWildEntries portKey now).Perm (r.otherWild now w) := by
  obtain ⟨-, rfl⟩ := port_of_key hkey
  exact liveWildEntries_remove r now w _

private theorem soleLiveWild_remove_of_other {portKey : String}
    (h : ∀ ident, w.key ≠ some (.wild portKey ident)) :
    (r.remove w).soleLiveWild portKey now = r.soleLiveWild portKey now := by
  have hperm := liveWildEntries_remove r now w portKey
  rw [List.filter_eq_self.mpr fun e _ => decide_eq_true (h e.1)] at hperm
  exact soleLiveWild_of_perm hperm

private theorem otherWild_of_sole {portKey ident : String} {l : Listener}
    (hkey : w.key = some (.wild portKey ident))
    (h : (r.remove w).soleLiveWild portKey now = some l) :
    ∃ ident', r.otherWild now w = [⟨ident', l⟩] ∧
      (r.remove w).liveEntry now (.wild portKey ident') = some l := by
  unfold soleLiveWild at h
  split at h
  · rename_i e hentries
    cases h
    have hperm : ((r.remove w).liveWildEntries portKey now).Perm (r.otherWild now w) :=
      liveWildEntries_remove_own hkey
    rw [hentries] at hperm
    refine ⟨e.1, List.perm_singleton.mp hperm.symm, mem_liveWildEntries.mp ?_⟩
    rw [hentries]
    exact List.mem_singleton_self _
  · cases h

private theorem eq_of_sole {portKey ident : String} {l : Listener}
    (hown : r.liveEntry now (.wild portKey ident) = some own)
    (h : r.soleLiveWild portKey now = some l) : l = own := by
  have hmem := mem_liveWildEntries.mpr hown
  unfold soleLiveWild at h
  split at h
  · rename_i e hentries
    cases h
    rw [hentries, List.mem_singleton] at hmem
    rw [← hmem]
  · cases h

private theorem soleLiveWildForPod_remove {podForIP : String → Option (String × String)}
    {portKey ident host ns pod : String} (hkey : w.key = some (.wild portKey ident))
    (hlocated : ∀ e, r.otherWild now w = [e] → ∀ host ns,
      podForIP host = some (ns, e.2.pod) → podIdent ns e.2.pod = e.1)
    (hpod : podForIP host = some (ns, pod))
    (hnone : (r.remove w).liveEntry now (.wild portKey (podIdent ns pod)) = none) :
    (r.remove w).soleLiveWildForPod portKey pod now = none := by
  unfold soleLiveWildForPod
  split
  · rfl
  · rename_i l hsole
    split
    · rfl
    · rename_i hname
      rw [not_not] at hname
      subst hname
      obtain ⟨ident', hother, hlive⟩ := otherWild_of_sole hkey hsole
      have hident : podIdent ns l.pod = ident' := hlocated _ hother host ns hpod
      rw [hident, hlive] at hnone
      cases hnone

section Lookups

variable (hkey : w.key = some key) (hown : r.liveEntry now key = some own)

include hkey hown

private theorem erases_liveEntry (key' : Key) :
    Erases own (r.liveEntry now key') ((r.remove w).liveEntry now key') := by
  rw [liveEntry_remove]
  split
  · rename_i hkey'
    rw [hkey, Option.some.injEq] at hkey'
    subst hkey'
    exact Or.inr ⟨hown, rfl⟩
  · exact Or.inl rfl

private theorem erases_liveExact (env : Resolvers) (addr : String) :
    Erases own (r.liveExact env addr now) ((r.remove w).liveExact env addr now) := by
  rw [liveExact_eq, liveExact_eq]
  rcases erases_liveEntry hkey hown (.exact addr) with hsame | ⟨hbefore, hafter⟩
  · exact Or.inl (by rw [hsame])
  · rw [hbefore, hafter]
    cases howns : stillOwns env own addr with
    | true => exact Or.inr ⟨by simp [Option.filter_some, howns], rfl⟩
    | false => exact Or.inl (by simp [Option.filter_some, howns])

private theorem erases_soleLiveWild {portKey : String}
    (hlength : ∀ ident, key = .wild portKey ident → (r.otherWild now w).length ≠ 1) :
    Erases own (r.soleLiveWild portKey now) ((r.remove w).soleLiveWild portKey now) := by
  by_cases hport : ∃ ident, key = .wild portKey ident
  · obtain ⟨ident, rfl⟩ := hport
    have hafter : (r.remove w).soleLiveWild portKey now = none := by
      apply soleLiveWild_eq_none
      rw [(liveWildEntries_remove_own hkey).length_eq]
      exact hlength ident rfl
    cases hbefore : r.soleLiveWild portKey now with
    | none => exact Or.inl hafter
    | some l =>
        rw [eq_of_sole hown hbefore]
        exact Or.inr ⟨rfl, hafter⟩
  · refine Or.inl (soleLiveWild_remove_of_other fun ident hwild => hport ⟨ident, ?_⟩)
    exact Option.some.inj (hkey.symm.trans hwild)

private theorem erases_locatedWild {podForIP : String → Option (String × String)}
    {portKey host ns pod : String}
    (hlocated : ∀ ident, key = .wild portKey ident → ∀ e, r.otherWild now w = [e] →
      ∀ host ns, podForIP host = some (ns, e.2.pod) → podIdent ns e.2.pod = e.1)
    (hpod : podForIP host = some (ns, pod)) :
    Erases own ((r.liveEntry now (.wild portKey (podIdent ns pod))).or
        (r.soleLiveWildForPod portKey pod now))
      (((r.remove w).liveEntry now (.wild portKey (podIdent ns pod))).or
        ((r.remove w).soleLiveWildForPod portKey pod now)) := by
  have hentry := erases_liveEntry hkey hown (.wild portKey (podIdent ns pod))
  by_cases hport : ∃ ident, key = .wild portKey ident
  · obtain ⟨ident, rfl⟩ := hport
    have hafter := soleLiveWildForPod_remove hkey (hlocated ident rfl) hpod
    rcases hentry with hsame | ⟨hbefore, hnone⟩
    · rw [hsame] at hafter ⊢
      cases hlive : r.liveEntry now (.wild portKey (podIdent ns pod)) with
      | some l => exact Or.inl rfl
      | none =>
          rw [Option.none_or, Option.none_or, hafter hlive]
          unfold soleLiveWildForPod
          cases hsole : r.soleLiveWild portKey now with
          | none => exact Or.inl rfl
          | some l =>
              rw [eq_of_sole hown hsole]
              by_cases hname : own.pod = pod
              · exact Or.inr ⟨by simp [hname], rfl⟩
              · exact Or.inl (by simp [hname])
    · rw [hbefore, hnone, hafter hnone]
      exact Or.inr ⟨rfl, rfl⟩
  · have hother : ∀ ident, w.key ≠ some (.wild portKey ident) := fun ident hwild =>
      hport ⟨ident, Option.some.inj (hkey.symm.trans hwild)⟩
    rw [liveEntry_remove, if_neg (hother _), soleLiveWildForPod, soleLiveWildForPod,
      soleLiveWild_remove_of_other hother]
    exact Or.inl rfl

variable (hhidden : r.StaysHidden env now w)

include hhidden

private theorem erases_liveWild (addr : String) :
    Erases own (r.liveWild env addr now) ((r.remove w).liveWild env addr now) := by
  rw [liveWild_eq, liveWild_eq]
  cases splitHostPort addr with
  | none => exact Or.inl rfl
  | some hostport =>
      obtain ⟨host, port⟩ := hostport
      dsimp only
      by_cases hport : port = ""
      · exact Or.inl (by simp [hport])
      · simp only [hport, if_false]
        unfold StaysHidden at hhidden
        cases hloc : env.podLoc with
        | none =>
            refine erases_soleLiveWild hkey hown fun ident hwild => ?_
            subst hwild
            rwa [if_pos (port_of_key hkey).1, hloc] at hhidden
        | some podForIP =>
            dsimp only
            cases hpod : podForIP host with
            | none => exact Or.inl rfl
            | some loc =>
                obtain ⟨ns, pod⟩ := loc
                have hlocated : ∀ ident, key = .wild (":" ++ port) ident →
                    ∀ e, r.otherWild now w = [e] → ∀ host ns,
                      podForIP host = some (ns, e.2.pod) → podIdent ns e.2.pod = e.1 := by
                  rintro ident rfl
                  rwa [if_pos (port_of_key hkey).1, hloc] at hhidden
                have herases := erases_locatedWild hkey hown hlocated hpod
                simp only [liveWildPod_eq]
                cases hbefore : r.liveEntry now (.wild (":" ++ port) (podIdent ns pod)) <;>
                  cases hafter : (r.remove w).liveEntry now
                    (.wild (":" ++ port) (podIdent ns pod)) <;>
                  simpa [hbefore, hafter] using herases

private theorem liveWild_remove_eq_none {addr : String} (hexact : key = .exact addr) :
    (r.remove w).liveWild env addr now = none := by
  subst hexact
  obtain ⟨hwildcard, rfl⟩ := addr_of_key hkey
  refine (erases_liveWild hkey hown hhidden w.addr).eq_none ?_
  rwa [StaysHidden, if_neg (by simp [hwildcard])] at hhidden

private theorem erases_liveAt (podAddr : String) :
    Erases own (r.liveAt env now podAddr) ((r.remove w).liveAt env now podAddr) := by
  unfold liveAt
  rcases erases_liveExact hkey hown env podAddr with hsame | ⟨hbefore, hafter⟩
  · rw [hsame]
    cases r.liveExact env podAddr now with
    | some l => exact Or.inl rfl
    | none => exact erases_liveWild hkey hown hhidden podAddr
  · have hkey' : key = .exact podAddr := by
      rw [liveExact_eq] at hbefore hafter
      rw [liveEntry_remove] at hafter
      by_contra hne
      rw [if_neg (by rw [hkey, Option.some.injEq]; exact hne), hbefore] at hafter
      cases hafter
    rw [hbefore, hafter]
    exact Or.inr ⟨rfl, liveWild_remove_eq_none hkey hown hhidden hkey'⟩

private theorem erases_joinEndpointslice (connectAddr : String) :
    Erases own (r.joinEndpointslice env connectAddr now)
      ((r.remove w).joinEndpointslice env connectAddr now) := by
  unfold joinEndpointslice
  cases env.resolver with
  | none => exact Or.inl rfl
  | some resolvePodAddr =>
      dsimp only
      cases resolvePodAddr connectAddr with
      | none => exact Or.inl rfl
      | some podAddr => exact erases_liveAt hkey hown hhidden podAddr

end Lookups

/-! ## What a withdraw does to Join -/

private theorem resolveVIP_eq_some_iff {backends : List String} {svc : ServiceRef}
    {base : Listener} :
    (∃ l, r.resolveVIP env backends svc now = some l ∧ l.advertised = base.advertised) ↔
      ∃ head others, backends.filterMap (r.liveAt env now) = head :: others ∧
        (others.any fun other => other.process ≠ head.process || other.image ≠ head.image) = false ∧
        head.advertised = base.advertised := by
  unfold resolveVIP
  rcases backends.filterMap (r.liveAt env now) with _ | ⟨head, _ | ⟨second, others⟩⟩
  · simp
  · simp [Listener.advertised]
  · simp only [List.cons.injEq]
    cases hany : (second :: others).any fun other =>
        other.process ≠ head.process || other.image ≠ head.image with
    | true =>
        simp only [if_true, reduceCtorEq, false_and, exists_false, false_iff]
        rintro ⟨_, _, ⟨rfl, rfl⟩, hagree, -⟩
        rw [hany] at hagree
        cases hagree
    | false =>
        simp only [Bool.false_eq_true, if_false, Option.some.injEq, exists_eq_left']
        constructor
        · intro h
          exact ⟨head, second :: others, ⟨rfl, rfl⟩, hany, h⟩
        · rintro ⟨_, _, ⟨rfl, rfl⟩, -, h⟩
          exact h

private theorem sameBinder_of_advertised {l : Listener} (h : l.advertised = own.advertised) :
    w.SameBinder l ↔ w.SameBinder own := by
  have hbinder : ∀ m : Listener, w.SameBinder m.advertised ↔ w.SameBinder m := fun _ => Iff.rfl
  rw [← hbinder l, h, hbinder]

private theorem joinServiceVIP_remove (hkey : w.key = some key)
    (hown : r.liveEntry now key = some own) (hhidden : r.StaysHidden env now w)
    (hbinder : w.SameBinder own) {connectAddr : String} {l : Listener}
    (h : r.joinServiceVIP env connectAddr now = some l) (hother : ¬ w.SameBinder l) :
    ∃ l', (r.remove w).joinServiceVIP env connectAddr now = some l' ∧
      l'.advertised = l.advertised := by
  unfold joinServiceVIP at h ⊢
  split at h
  · cases h
  · split at h
    · cases h
    · rename_i backends svc _
      obtain ⟨head, others, hlive, hagree, hbase⟩ := resolveVIP_eq_some_iff.mp ⟨l, h, rfl⟩
      have hne : head ≠ own := by
        rintro rfl
        exact hother ((sameBinder_of_advertised hbase.symm).mpr hbinder)
      obtain ⟨rest, hrest, hsublist⟩ :=
        Erases.filterMap_eq_cons (erases_liveAt hkey hown hhidden) hlive hne
      refine resolveVIP_eq_some_iff.mpr ⟨head, rest, hrest, ?_, hbase⟩
      rw [List.any_eq_false] at hagree ⊢
      exact fun other hmem => hagree other (hsublist.subset hmem)

private theorem joinServiceVIP_eq_none (hseparate : env.Separate) {connectAddr : String}
    {l : Listener}
    (h : r.liveWild env connectAddr now = some l) (r' : Registry) :
    r'.joinServiceVIP env connectAddr now = none := by
  -- Where a wildcard bind answers for an address, no Service has it.
  unfold joinServiceVIP
  split
  · rfl
  · rename_i resolveVIP hsvc
    obtain ⟨podForIP, hpodLoc, hapart⟩ := hseparate resolveVIP hsvc
    obtain ⟨host, port, hsplit, ⟨hnone, -⟩ | ⟨podForIP', ns, pod, hpodLoc', hpod, -⟩⟩ :=
      liveWild_cases h
    · rw [hpodLoc] at hnone
      cases hnone
    · rw [hpodLoc, Option.some.injEq] at hpodLoc'
      subst hpodLoc'
      cases hresolve : resolveVIP connectAddr with
      | none => rfl
      | some backends =>
          have hapart := hapart connectAddr host port hsplit (by rw [hresolve]; rfl)
          rw [hpod] at hapart
          cases hapart

private theorem keeps_remove (r : Registry) (hseparate : env.Separate)
    (hspares : r.Spares env now w) :
    r.Keeps now env w (r.remove w) := by
  by_cases hnone : ∀ key, w.key = some key → r.liveEntry now key = none
  · intro connectAddr l how hjoin _
    exact ⟨l, ((sameLive_remove hnone).join env connectAddr).trans hjoin, rfl⟩
  · push Not at hnone
    obtain ⟨key, hkey, hlive⟩ := hnone
    obtain ⟨own, hown⟩ := Option.ne_none_iff_exists'.mp hlive
    obtain ⟨hbinder, hhidden⟩ := hspares key hkey own hown
    intro connectAddr l how hjoin hother
    have hne : l ≠ own := by
      rintro rfl
      exact hother hbinder
    have hexact := erases_liveExact hkey hown env connectAddr
    have hslice := erases_joinEndpointslice hkey hown hhidden connectAddr
    have hwild := erases_liveWild hkey hown hhidden connectAddr
    unfold join at hjoin ⊢
    cases hbefore₁ : r.liveExact env connectAddr now with
    | some m =>
        simp only [hbefore₁, Option.some.injEq, Prod.mk.injEq] at hjoin
        obtain ⟨rfl, rfl⟩ := hjoin
        exact ⟨m, by simp only [hexact.eq_some hbefore₁ hne], rfl⟩
    | none =>
        simp only [hbefore₁, hexact.eq_none hbefore₁] at hjoin ⊢
        cases hbefore₂ : r.joinEndpointslice env connectAddr now with
        | some m =>
            simp only [hbefore₂, Option.some.injEq, Prod.mk.injEq] at hjoin
            obtain ⟨rfl, rfl⟩ := hjoin
            exact ⟨m, by simp only [hslice.eq_some hbefore₂ hne], rfl⟩
        | none =>
            simp only [hbefore₂, hslice.eq_none hbefore₂] at hjoin ⊢
            cases hbefore₃ : r.joinServiceVIP env connectAddr now with
            | some m =>
                simp only [hbefore₃, Option.some.injEq, Prod.mk.injEq] at hjoin
                obtain ⟨rfl, rfl⟩ := hjoin
                obtain ⟨l', hafter, hsame⟩ :=
                  joinServiceVIP_remove hkey hown hhidden hbinder hbefore₃ hother
                exact ⟨l', by simp only [hafter], hsame⟩
            | none =>
                simp only [hbefore₃] at hjoin
                cases hbefore₄ : r.liveWild env connectAddr now with
                | none => simp [hbefore₄] at hjoin
                | some m =>
                    simp only [hbefore₄, Option.some.injEq, Prod.mk.injEq] at hjoin
                    obtain ⟨rfl, rfl⟩ := hjoin
                    have hsvc := joinServiceVIP_eq_none hseparate hbefore₄ (r.remove w)
                    exact ⟨m, by simp only [hsvc, hwild.eq_some hbefore₄ hne], rfl⟩

/-! ## Withdraws in a history -/

theorem run_keeps_other_binders (ttl now : Int) (env : Resolvers) (hseparate : env.Separate)
    (past : History) (t : Int) (w : Listener) (hspares : (run ttl past).Spares env now w) :
    (run ttl past).Keeps now env w (run ttl (past ++ [(t, .remove w)])) := by
  rw [run_append]
  exact keeps_remove _ hseparate hspares

def noResolvers : Resolvers := ⟨none, none, none⟩

def oldBind : Listener := bareListener "10.0.0.5:80" false "ns" "web-1"

def newBind : Listener := bareListener "10.0.0.5:80" false "ns" "web-2"

def bindV4 : Listener := bareListener "0.0.0.0:80" true "ns" "web-1"

def bindV6 : Listener := bareListener "[::]:80" true "ns" "web-1"

/-- The successor advertises the address before the withdraw of the old pod arrives; a
pod closes one of its two sockets on a port. -/
theorem withdraw_retires_other_binder :
    (¬ oldBind.SameBinder newBind ∧
      ((run 60 [(0, .observe oldBind), (1, .observe newBind)]).join noResolvers
        "10.0.0.5:80" 2).map (fun p => (p.1.pod, p.2)) = some ("web-2", .direct) ∧
      (run 60 [(0, .observe oldBind), (1, .observe newBind), (2, .remove oldBind)]).join
        noResolvers "10.0.0.5:80" 2 = none) ∧
    (¬ bindV4.SameBinder bindV6 ∧
      ((run 60 [(0, .observe bindV4), (1, .observe bindV6)]).join noResolvers
        "10.0.0.5:80" 2).map (fun p => (p.1.addr, p.2)) = some ("[::]:80", .wildcard) ∧
      (run 60 [(0, .observe bindV4), (1, .observe bindV6), (2, .remove bindV4)]).join
        noResolvers "10.0.0.5:80" 2 = none) := by
  decide +kernel

def replicaBind : Listener := bareListener "0.0.0.0:80" true "ns" "web-2"

def locatesReplicas : Resolvers :=
  ⟨none, none, some fun host =>
    if host = "10.0.0.5" then some ("ns", "web-1")
    else if host = "10.0.0.6" then some ("ns", "web-2") else none⟩

theorem run_keeps_replicaBind :
    ∃ l, (run 60 [(0, .observe bindV4), (1, .observe replicaBind), (2, .remove bindV4)]).join
      locatesReplicas "10.0.0.6:80" 2 = some (l, .wildcard) := by
  have hbinder : ∀ key ∈ bindV4.key, ∀ l ∈
      (run 60 [(0, .observe bindV4), (1, .observe replicaBind)]).liveEntry 2 key,
        bindV4.SameBinder l := by
    decide +kernel
  have hother : ((run 60 [(0, .observe bindV4), (1, .observe replicaBind)]).otherWild 2
      bindV4).map (fun e => (e.1, e.2.pod)) = [(podIdent "ns" "web-2", "web-2")] := by
    decide +kernel
  have hhidden : (run 60 [(0, .observe bindV4), (1, .observe replicaBind)]).StaysHidden
      locatesReplicas 2 bindV4 := by
    intro e he host ns hpod
    rw [he, List.map_singleton, List.cons.injEq, Prod.mk.injEq] at hother
    obtain ⟨⟨hident, hname⟩, -⟩ := hother
    rw [hname] at hpod ⊢
    rw [hident]
    dsimp only at hpod
    split at hpod
    · simp at hpod
    · split at hpod <;> cases hpod
      rfl
  have hjoin : ((run 60 [(0, .observe bindV4), (1, .observe replicaBind)]).join locatesReplicas
      "10.0.0.6:80" 2).map (fun p => (decide (bindV4.SameBinder p.1), p.2)) =
      some (false, .wildcard) := by
    decide +kernel
  obtain ⟨⟨l, how⟩, hjoin, hvalues⟩ := Option.map_eq_some_iff.mp hjoin
  obtain ⟨hdiffers, rfl⟩ := Prod.mk.inj hvalues
  obtain ⟨l', hkept, -⟩ := run_keeps_other_binders 60 2 locatesReplicas (fun _ h => nomatch h) _ 2
    bindV4 (fun key hkey l hl => ⟨hbinder key hkey l hl, hhidden⟩) _ l _ hjoin
    (of_decide_eq_false hdiffers)
  exact ⟨l', hkept⟩

end Registry

end KloudlensAggregator.ClusterPeers
