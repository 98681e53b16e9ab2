import Mathlib.Data.List.TakeWhile
import Mathlib.Tactic

/-!
# Addresses

`net.SplitHostPort` and the two conversions of `strconv` that go with it.  The
texts of the errors are left out.
-/

namespace KloudlensAggregator.Foundation

def splitLastColon : List Char → Option (List Char × List Char)
  | [] => none
  | c :: cs =>
      match splitLastColon cs with
      | some (before, port) => some (c :: before, port)
      | none => if c = ':' then some ([], cs) else none

/-- The host before the port; in brackets it may hold colons. -/
def hostOf (before port : List Char) : Option (List Char) :=
  match before with
  | '[' :: rest =>
      let host := rest.takeWhile (· ≠ ']')
      if rest = host ++ [']'] ∧ '[' ∉ host ++ port ∧ ']' ∉ port then some host else none
  | _ =>
      if ':' ∉ before ∧ '[' ∉ before ++ port ∧ ']' ∉ before ++ port then some before else none

def splitHostPort (hostport : String) : Option (String × String) := do
  let (before, port) ← splitLastColon hostport.toList
  let host ← hostOf before port
  some (String.ofList host, String.ofList port)

def joinHostPort (host port : String) : String :=
  (if ':' ∈ host.toList then "[" ++ host ++ "]" else host) ++ ":" ++ port

def itoa : Int → String
  | .ofNat n => n.repr
  | .negSucc n => "-" ++ (n + 1).repr

def digitsValue (cs : List Char) : Option Nat :=
  if cs ≠ [] ∧ cs.all Char.isDigit then
    some (cs.foldl (fun value c => value * 10 + (c.toNat - '0'.toNat)) 0)
  else none

/-- `strconv.Atoi`, for 64 bit integers. -/
def atoi (s : String) : Option Int :=
  let value : Option Int :=
    match s.toList with
    | '-' :: digits => (digitsValue digits).map fun n => -(n : Int)
    | '+' :: digits => (digitsValue digits).map Int.ofNat
    | digits => (digitsValue digits).map Int.ofNat
  value.filter fun n => -2 ^ 63 ≤ n ∧ n < 2 ^ 63

/-! ## Hosts -/

theorem splitLastColon_of_not_mem {cs : List Char} (h : ':' ∉ cs) : splitLastColon cs = none := by
  induction cs with
  | nil => rfl
  | cons c cs ih =>
      rw [List.mem_cons, not_or] at h
      simp [splitLastColon, ih h.2, Ne.symm h.1]

theorem splitLastColon_append {host port : List Char} (h : ':' ∉ port) :
    splitLastColon (host ++ ':' :: port) = some (host, port) := by
  induction host with
  | nil => simp [splitLastColon, splitLastColon_of_not_mem h]
  | cons c host ih => simp [splitLastColon, ih]

theorem joined_inj {host host' port port' : String} (hport : ':' ∉ port.toList)
    (hport' : ':' ∉ port'.toList) (h : host ++ ":" ++ port = host' ++ ":" ++ port') :
    host = host' ∧ port = port' := by
  have hlist := congrArg (fun s => splitLastColon s.toList) h
  simp only [String.toList_append, List.append_assoc] at hlist
  have hcolon : ":".toList = [':'] := rfl
  rw [hcolon, List.singleton_append, List.singleton_append, splitLastColon_append hport,
    splitLastColon_append hport', Option.some.injEq, Prod.mk.injEq, String.toList_inj,
    String.toList_inj] at hlist
  exact hlist

theorem not_mem_hostOf {before port host : List Char} (h : hostOf before port = some host) :
    '[' ∉ host ∧ ']' ∉ host := by
  unfold hostOf at h
  split at h
  · rename_i rest
    dsimp only at h
    split at h
    · rename_i hcond
      cases h
      refine ⟨fun hmem => hcond.2.1 (List.mem_append_left _ hmem), fun hmem => ?_⟩
      have := List.mem_takeWhile_imp hmem
      simp at this
    · cases h
  · split at h
    · rename_i hcond
      cases h
      exact ⟨fun hmem => hcond.2.1 (List.mem_append_left _ hmem),
        fun hmem => hcond.2.2 (List.mem_append_left _ hmem)⟩
    · cases h

theorem hostOf_eq_of_not_mem {host port host' : List Char} (hbracket : '[' ∉ host)
    (h : hostOf host port = some host') : host' = host := by
  unfold hostOf at h
  split at h
  · exact absurd List.mem_cons_self hbracket
  · split at h
    · exact (Option.some.inj h).symm
    · cases h

theorem splitHostPort_joined {addr host port port' host' port'' : String}
    (haddr : splitHostPort addr = some (host, port)) (hport : ':' ∉ port'.toList)
    (hjoined : splitHostPort (host ++ ":" ++ port') = some (host', port'')) :
    host' = host ∧ port'' = port' := by
  simp only [splitHostPort, bind, Option.bind_eq_some_iff, Option.some.injEq,
    Prod.mk.injEq] at haddr hjoined
  obtain ⟨⟨before, after⟩, -, hostChars, hhost, rfl, rfl⟩ := haddr
  obtain ⟨⟨before', after'⟩, hsplit, hostChars', hhost', rfl, rfl⟩ := hjoined
  have hlist : (String.ofList hostChars ++ ":" ++ port').toList =
      hostChars ++ ':' :: port'.toList := by
    simp
  rw [hlist, splitLastColon_append hport] at hsplit
  cases hsplit
  rw [hostOf_eq_of_not_mem (not_mem_hostOf hhost).1 hhost']
  simp

theorem isDigit_of_mem_itoa {n : Int} {c : Char} (h : c ∈ (itoa n).toList) :
    c.isDigit ∨ c = '-' := by
  have hdigits : ∀ m : Nat, c ∈ m.repr.toList → c.isDigit := by
    intro m hmem
    rw [Nat.toList_repr] at hmem
    exact Nat.isDigit_of_mem_toDigits (by decide) (by decide) hmem
  cases n with
  | ofNat m => exact Or.inl (hdigits m h)
  | negSucc m =>
      simp only [itoa, String.toList_append, List.mem_append] at h
      rcases h with hsign | hdigit
      · exact Or.inr (by simpa using hsign)
      · exact Or.inl (hdigits _ hdigit)

theorem not_mem_itoa {c : Char} (hdigit : c.isDigit = false) (hminus : c ≠ '-') (n : Int) :
    c ∉ (itoa n).toList := by
  intro hmem
  rcases isDigit_of_mem_itoa hmem with h | h
  · rw [hdigit] at h
    cases h
  · exact hminus h

theorem colon_not_mem_itoa (n : Int) : ':' ∉ (itoa n).toList :=
  not_mem_itoa (by decide) (by decide) n

theorem itoa_injective {n n' : Int} (h : itoa n = itoa n') : n = n' := by
  have hrepr : ∀ m m' : Nat, m.repr = m'.repr → m = m' := by
    intro m m' hm
    have hdigits := congrArg String.toList hm
    rw [Nat.toList_repr, Nat.toList_repr] at hdigits
    have hvalue := congrArg (Nat.ofDigitChars 10 · 0) hdigits
    simpa using hvalue
  have hsign : ∀ m k : Nat, m.repr ≠ "-" ++ k.repr := by
    intro m k hm
    have hmem : '-' ∈ m.repr.toList := by
      rw [hm]
      simp
    rw [Nat.toList_repr] at hmem
    have := Nat.isDigit_of_mem_toDigits (by decide) (by decide) hmem
    revert this
    decide
  cases n with
  | ofNat m =>
      cases n' with
      | ofNat m' => exact congrArg Int.ofNat (hrepr m m' h)
      | negSucc k => exact absurd h (hsign m (k + 1))
  | negSucc k =>
      cases n' with
      | ofNat m' => exact absurd h.symm (hsign m' (k + 1))
      | negSucc k' =>
          have hsucc := hrepr _ _ ((String.append_right_inj "-").mp h)
          rw [Nat.succ.inj hsucc]

/-! ## Building an address -/

/-- Without brackets, as the text of an IP address is. -/
def Unbracketed (s : String) : Prop := '[' ∉ s.toList ∧ ']' ∉ s.toList

theorem unbracketed_itoa (n : Int) : Unbracketed (itoa n) :=
  ⟨not_mem_itoa (by decide) (by decide) n, not_mem_itoa (by decide) (by decide) n⟩

theorem splitHostPort_append {before port : String} (hcolon : ':' ∉ port.toList) :
    splitHostPort (before ++ ":" ++ port) =
      (hostOf before.toList port.toList).map fun host => (String.ofList host, port) := by
  have hlist : (before ++ ":" ++ port).toList = before.toList ++ ':' :: port.toList := by simp
  simp only [splitHostPort, hlist, splitLastColon_append hcolon, bind, Option.bind_some,
    String.ofList_toList]
  cases hostOf before.toList port.toList <;> rfl

theorem splitHostPort_append_iff {host port : String} (hhost : Unbracketed host)
    (hport : Unbracketed port) (hcolon : ':' ∉ port.toList) :
    splitHostPort (host ++ ":" ++ port) = some (host, port) ↔ ':' ∉ host.toList := by
  have hostOf_eq : hostOf host.toList port.toList =
      if ':' ∉ host.toList then some host.toList else none := by
    unfold hostOf
    split
    · rename_i rest heq
      exact absurd (heq ▸ List.mem_cons_self) hhost.1
    · obtain ⟨hopen, hclose⟩ := hhost
      obtain ⟨hopen', hclose'⟩ := hport
      simp [hopen, hclose, hopen', hclose']
  rw [splitHostPort_append hcolon, hostOf_eq]
  by_cases hmem : ':' ∈ host.toList <;> simp [hmem]

theorem splitHostPort_joinHostPort {host port : String} (hhost : Unbracketed host)
    (hport : Unbracketed port) (hcolon : ':' ∉ port.toList) :
    splitHostPort (joinHostPort host port) = some (host, port) := by
  unfold joinHostPort
  by_cases hmem : ':' ∈ host.toList
  · have hlist : ("[" ++ host ++ "]").toList = '[' :: (host.toList ++ [']']) := by simp
    have htake : (host.toList ++ [']']).takeWhile (· ≠ ']') = host.toList := by
      rw [List.takeWhile_append_of_pos]
      · simp
      · intro c hc
        rw [decide_eq_true_eq]
        rintro rfl
        exact hhost.2 hc
    have hostOf_eq : hostOf ('[' :: (host.toList ++ [']'])) port.toList = some host.toList := by
      simp only [hostOf, htake]
      rw [if_pos]
      exact ⟨trivial, by simp [hhost.1, hport.1], hport.2⟩
    rw [if_pos hmem, splitHostPort_append hcolon, hlist, hostOf_eq, Option.map_some,
      String.ofList_toList]
  · rw [if_neg hmem]
    exact (splitHostPort_append_iff hhost hport hcolon).mpr hmem

example : splitHostPort "[fd00::7]:8080" = some ("fd00::7", "8080") := by decide

example : splitHostPort "fd00::7:8080" = none := by decide

end KloudlensAggregator.Foundation
