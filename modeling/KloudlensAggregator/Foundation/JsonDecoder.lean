import KloudlensAggregator.Foundation.JsonScanner
import Mathlib.Tactic

/-!
# Decoding a stream of JSON objects

`decodeAll` is the loop `for dec.More() { dec.Decode(&v) }`: it returns the
values decoded before the first error, and that error.  A stream is `Framed`
when it consists of marshalled values with white space between them; such a
stream decodes to exactly those values, whatever follows it.  A proper prefix
of an object is `Torn`: no run of complete records behind it repairs it.
-/

namespace KloudlensAggregator.Foundation.Json

variable {α : Type*}

def decodeLoop (unmarshal : Bytes → Option α) :
    Nat → Bytes → List α × Option DecodeError
  | 0, _ => ([], none)
  | fuel + 1, stream =>
      if more stream then
        match readValue (skipSpaces stream) with
        | .error e => ([], some e)
        | .ok (text, rest) =>
            match unmarshal text with
            | none => ([], some .unmarshal)
            | some value =>
                let decoded := decodeLoop unmarshal fuel rest
                (value :: decoded.1, decoded.2)
      else ([], none)

def decodeAll (unmarshal : Bytes → Option α) (stream : Bytes) :
    List α × Option DecodeError :=
  decodeLoop unmarshal stream.length stream

theorem readValueFrom_length {scanner : Scanner} {seen stream text rest : Bytes}
    (h : readValueFrom scanner seen stream = .ok (text, rest)) :
    rest.length ≤ stream.length := by
  induction stream generalizing scanner seen with
  | nil =>
      simp only [readValueFrom] at h
      split at h
      · simp only [Except.ok.injEq, Prod.mk.injEq] at h
        simp [← h.2]
      · simp at h
  | cons c stream ih =>
      simp only [readValueFrom] at h
      cases hstep : scanner.step c with
      | none =>
          simp only [hstep] at h
          split at h
          · simp only [Except.ok.injEq, Prod.mk.injEq] at h
            simp [← h.2]
          · simp at h
      | some next =>
          simp only [hstep] at h
          split at h
          · simp only [Except.ok.injEq, Prod.mk.injEq] at h
            simp [← h.2]
          · have := ih h
            simp only [List.length_cons]
            omega

private theorem start_isOpenNumber : start.isOpenNumber = false := rfl

theorem readValue_length {stream text rest : Bytes}
    (h : readValue stream = .ok (text, rest)) : rest.length < stream.length := by
  cases stream with
  | nil => simp [readValue, readValueFrom, start, Scanner.isOpenNumber] at h
  | cons c stream =>
      simp only [readValue, readValueFrom] at h
      cases hstep : start.step c with
      | none => simp [hstep, start_isOpenNumber] at h
      | some next =>
          simp only [hstep] at h
          split at h
          · simp only [Except.ok.injEq, Prod.mk.injEq] at h
            simp [← h.2]
          · have := readValueFrom_length h
            simp only [List.length_cons]
            omega

theorem skipSpaces_length (stream : Bytes) :
    (skipSpaces stream).length ≤ stream.length :=
  (List.dropWhile_sublist isSpace).length_le

private theorem decodeLoop_fuel (unmarshal : Bytes → Option α)
    {fuel : Nat} {stream : Bytes} (h : stream.length ≤ fuel) :
    decodeLoop unmarshal fuel stream =
      decodeLoop unmarshal stream.length stream := by
  induction fuel using Nat.strong_induction_on generalizing stream with
  | _ fuel ih =>
      cases stream with
      | nil =>
          cases fuel with
          | zero => rfl
          | succ fuel => simp [decodeLoop, more, skipSpaces]
      | cons c stream =>
          cases fuel with
          | zero => simp at h
          | succ fuel =>
              simp only [List.length_cons, decodeLoop]
              split
              · cases hread : readValue (skipSpaces (c :: stream)) with
                | error e => rfl
                | ok result =>
                    obtain ⟨text, rest⟩ := result
                    have hrest : rest.length ≤ stream.length := by
                      have h₁ := readValue_length hread
                      have h₂ := skipSpaces_length (c :: stream)
                      simp only [List.length_cons] at h₂
                      omega
                    simp only [List.length_cons] at h
                    cases hvalue : unmarshal text with
                    | none => simp only [hvalue]
                    | some value =>
                        simp only [hvalue]
                        rw [ih fuel (by omega) (by omega),
                          ih stream.length (by omega) hrest]
              · rfl

theorem decodeAll_of_not_more (unmarshal : Bytes → Option α) {stream : Bytes}
    (h : more stream = false) : decodeAll unmarshal stream = ([], none) := by
  unfold decodeAll
  cases stream with
  | nil => rfl
  | cons c stream => simp [decodeLoop, h]

theorem decodeAll_of_error (unmarshal : Bytes → Option α) {stream : Bytes}
    {e : DecodeError} (hmore : more stream = true)
    (hread : readValue (skipSpaces stream) = .error e) :
    decodeAll unmarshal stream = ([], some e) := by
  unfold decodeAll
  cases stream with
  | nil => simp [more, skipSpaces] at hmore
  | cons c stream => simp [decodeLoop, hmore, hread]

theorem decodeAll_of_value {unmarshal : Bytes → Option α}
    {stream text rest : Bytes} {value : α} (hmore : more stream = true)
    (hread : readValue (skipSpaces stream) = .ok (text, rest))
    (hvalue : unmarshal text = some value) :
    decodeAll unmarshal stream =
      (value :: (decodeAll unmarshal rest).1, (decodeAll unmarshal rest).2) := by
  unfold decodeAll
  cases stream with
  | nil => simp [more, skipSpaces] at hmore
  | cons c stream =>
      have h₁ := readValue_length hread
      have h₂ := skipSpaces_length (c :: stream)
      simp only [List.length_cons] at h₂
      have hfuel := decodeLoop_fuel unmarshal
        (show rest.length ≤ stream.length by omega)
      simp only [List.length_cons, decodeLoop, hmore, hread, hvalue, if_true, hfuel]

theorem decodeAll_of_unmarshal_error {unmarshal : Bytes → Option α}
    {stream text rest : Bytes} (hmore : more stream = true)
    (hread : readValue (skipSpaces stream) = .ok (text, rest))
    (hvalue : unmarshal text = none) :
    decodeAll unmarshal stream = ([], some .unmarshal) := by
  unfold decodeAll
  cases stream with
  | nil => simp [more, skipSpaces] at hmore
  | cons c stream => simp [decodeLoop, hmore, hread, hvalue]

/-! ## Self-delimiting texts -/

/-- A text that ends exactly where the scanner closes its first value. -/
def SelfDelimited (text : Bytes) : Prop :=
  start.run text = some ⟨.endValue, []⟩

instance (text : Bytes) : Decidable (SelfDelimited text) :=
  inferInstanceAs (Decidable (start.run text = some ⟨.endValue, []⟩))

def IsObject (text : Bytes) : Prop :=
  text.head? = some openBrace ∧ SelfDelimited text

instance (text : Bytes) : Decidable (IsObject text) :=
  inferInstanceAs (Decidable (text.head? = some openBrace ∧ SelfDelimited text))

private theorem readValueFrom_of_run {scanner : Scanner} {text : Bytes}
    (h : scanner.run text = some ⟨.endValue, []⟩)
    (hopen : scanner.isDone = false) (seen rest : Bytes) :
    readValueFrom scanner seen (text ++ rest) = .ok (seen ++ text, rest) := by
  induction text generalizing scanner seen with
  | nil =>
      obtain rfl := Option.some.inj h
      simp [Scanner.isDone] at hopen
  | cons c text ih =>
      rw [Scanner.run_cons, Option.bind_eq_some_iff] at h
      obtain ⟨next, hstep, hrun⟩ := h
      simp only [List.cons_append, readValueFrom, hstep]
      cases hdone : next.isDone with
      | false => simpa using ih hrun hdone (seen ++ [c])
      | true =>
          cases text with
          | nil => simp
          | cons d text =>
              rw [Scanner.run_cons, Scanner.step_of_isDone hdone] at hrun
              simp at hrun

theorem readValue_of_selfDelimited {text : Bytes} (h : SelfDelimited text)
    (rest : Bytes) : readValue (text ++ rest) = .ok (text, rest) := by
  simpa [readValue] using readValueFrom_of_run h rfl [] rest

theorem readValueFrom_open {scanner last : Scanner} {text : Bytes}
    (h : scanner.run text = some last) (hopen : last.isDone = false)
    (seen rest : Bytes) :
    readValueFrom scanner seen (text ++ rest) =
      readValueFrom last (seen ++ text) rest := by
  induction text generalizing scanner seen with
  | nil =>
      obtain rfl := Option.some.inj h
      simp
  | cons c text ih =>
      rw [Scanner.run_cons, Option.bind_eq_some_iff] at h
      obtain ⟨next, hstep, hrun⟩ := h
      cases hdone : next.isDone with
      | false =>
          simp only [List.cons_append, readValueFrom, hstep, hdone]
          simpa using ih hrun (seen ++ [c])
      | true =>
          cases text with
          | nil =>
              obtain rfl := Option.some.inj hrun
              simp [hdone] at hopen
          | cons d text =>
              rw [Scanner.run_cons, Scanner.step_of_isDone hdone] at hrun
              simp at hrun

theorem more_of_isObject {text : Bytes} (h : IsObject text) (rest : Bytes) :
    more (text ++ rest) = true ∧ skipSpaces (text ++ rest) = text ++ rest := by
  obtain ⟨c, text', rfl⟩ : ∃ c text', text = c :: text' := by
    cases text with
    | nil => simp [IsObject] at h
    | cons c text' => exact ⟨c, text', rfl⟩
  have hc : c = openBrace := by simpa using h.1
  subst hc
  have hskip : skipSpaces (openBrace :: text' ++ rest) =
      openBrace :: text' ++ rest := rfl
  refine ⟨?_, hskip⟩
  unfold more
  rw [hskip]
  rfl

theorem skipSpaces_append {spaces : Bytes} (h : ∀ c ∈ spaces, isSpace c = true)
    (stream : Bytes) : skipSpaces (spaces ++ stream) = skipSpaces stream := by
  induction spaces with
  | nil => rfl
  | cons c spaces ih =>
      have hc := h c List.mem_cons_self
      simp only [List.cons_append, skipSpaces, List.dropWhile_cons, hc, if_true]
      exact ih fun d hd => h d (List.mem_cons_of_mem c hd)

theorem more_append {spaces : Bytes} (h : ∀ c ∈ spaces, isSpace c = true)
    (stream : Bytes) : more (spaces ++ stream) = more stream := by
  simp only [more, skipSpaces_append h]

theorem decodeAll_spaces (unmarshal : Bytes → Option α) {spaces : Bytes}
    (h : ∀ c ∈ spaces, isSpace c = true) (stream : Bytes) :
    decodeAll unmarshal (spaces ++ stream) = decodeAll unmarshal stream := by
  cases hmore : more stream with
  | false =>
      rw [decodeAll_of_not_more unmarshal hmore,
        decodeAll_of_not_more unmarshal (by rw [more_append h, hmore])]
  | true =>
      have hmore' : more (spaces ++ stream) = true := by rw [more_append h, hmore]
      have hskip := skipSpaces_append h stream
      cases hread : readValue (skipSpaces stream) with
      | error e =>
          rw [decodeAll_of_error unmarshal hmore hread,
            decodeAll_of_error unmarshal hmore' (by rw [hskip, hread])]
      | ok result =>
          obtain ⟨text, rest⟩ := result
          cases hvalue : unmarshal text with
          | some value =>
              rw [decodeAll_of_value hmore hread hvalue,
                decodeAll_of_value hmore' (by rw [hskip, hread]) hvalue]
          | none =>
              rw [decodeAll_of_unmarshal_error hmore hread hvalue,
                decodeAll_of_unmarshal_error hmore' (by rw [hskip, hread]) hvalue]

/-! ## Framed streams -/

/-- The stream holds the marshalled values in order, spaces in between. -/
inductive Framed (marshal : α → Bytes) : List α → Bytes → Prop
  | nil {spaces : Bytes} (h : ∀ c ∈ spaces, isSpace c = true) :
      Framed marshal [] spaces
  | cons {spaces rest : Bytes} {value : α} {values : List α}
      (h : ∀ c ∈ spaces, isSpace c = true) (tail : Framed marshal values rest) :
      Framed marshal (value :: values) (spaces ++ (marshal value ++ rest))

namespace Framed

variable {marshal : α → Bytes} {unmarshal : Bytes → Option α}
variable {values others : List α} {stream other : Bytes}

theorem empty : Framed marshal [] [] := .nil (by simp)

theorem spaces_append {spaces : Bytes} (h : ∀ c ∈ spaces, isSpace c = true)
    (framed : Framed marshal values stream) :
    Framed marshal values (spaces ++ stream) := by
  cases framed with
  | nil hspaces =>
      apply Framed.nil
      intro c hc
      rcases List.mem_append.mp hc with hc | hc
      · exact h c hc
      · exact hspaces c hc
  | cons hspaces tail =>
      rw [← List.append_assoc]
      apply Framed.cons _ tail
      intro c hc
      rcases List.mem_append.mp hc with hc | hc
      · exact h c hc
      · exact hspaces c hc

theorem append (framed : Framed marshal values stream)
    (framed' : Framed marshal others other) :
    Framed marshal (values ++ others) (stream ++ other) := by
  induction framed with
  | nil h => exact framed'.spaces_append h
  | cons h _ ih =>
      simp only [List.cons_append, List.append_assoc]
      exact .cons h ih

theorem single (value : α) : Framed marshal [value] (marshal value) := by
  have h : Framed marshal [value] ([] ++ (marshal value ++ [])) :=
    .cons (by simp) empty
  simpa using h

theorem line (value : α) :
    Framed marshal [value] (marshal value ++ [newline]) := by
  have hspaces : ∀ c ∈ [newline], isSpace c = true := by
    intro c hc
    rw [List.mem_singleton.mp hc]
    rfl
  have hnewline : Framed marshal [] [newline] := .nil hspaces
  simpa using (single value).append hnewline

theorem decodeAll_append (framed : Framed marshal values stream)
    (hobject : ∀ value ∈ values, IsObject (marshal value))
    (hround : ∀ value ∈ values, unmarshal (marshal value) = some value)
    (rest : Bytes) :
    decodeAll unmarshal (stream ++ rest) =
      (values ++ (decodeAll unmarshal rest).1, (decodeAll unmarshal rest).2) := by
  induction framed with
  | nil h => simp [decodeAll_spaces unmarshal h]
  | @cons spaces tail value values h _ ih =>
      have hvalue := hobject value List.mem_cons_self
      rw [List.append_assoc, decodeAll_spaces unmarshal h, List.append_assoc]
      obtain ⟨hmore, hskip⟩ := more_of_isObject hvalue (tail ++ rest)
      have hread := readValue_of_selfDelimited hvalue.2 (tail ++ rest)
      rw [decodeAll_of_value hmore (by rw [hskip, hread])
        (hround value List.mem_cons_self)]
      rw [ih (fun v hv => hobject v (List.mem_cons_of_mem value hv))
        (fun v hv => hround v (List.mem_cons_of_mem value hv))]
      simp

theorem decodeAll_eq (framed : Framed marshal values stream)
    (hobject : ∀ value ∈ values, IsObject (marshal value))
    (hround : ∀ value ∈ values, unmarshal (marshal value) = some value) :
    decodeAll unmarshal stream = (values, none) := by
  have hnil : decodeAll unmarshal [] = (([] : List α), none) := rfl
  have h := framed.decodeAll_append hobject hround []
  rwa [List.append_nil, hnil, List.append_nil] at h

end Framed

/-! ## Torn records -/

namespace Scanner

private theorem leaveValue_open {stack : List Frame} {c : UInt8}
    {next : Scanner} (h : leaveValue stack c = some next) :
    next.stack ≠ [] ∨ next.isDone = true := by
  cases stack with
  | nil => simp [leaveValue] at h
  | cons frame outer =>
      simp only [leaveValue] at h
      repeat' split at h
      all_goals
        first
        | (obtain rfl := Option.some.inj h; cases outer <;> simp [isDone])
        | simp at h

private theorem above_open {inner : Option Scanner} {outer : List Frame} {next : Scanner}
    (houter : outer ≠ []) (h : inner.map (above · outer) = some next) : next.stack ≠ [] := by
  obtain ⟨scanner, -, rfl⟩ := Option.map_eq_some_iff.mp h
  exact List.append_ne_nil_of_right_ne_nil scanner.stack houter

private theorem enterValue_open {stack : List Frame} {c : UInt8}
    {next : Scanner} (hstack : stack ≠ []) (h : enterValue stack c = some next) :
    next.stack ≠ [] := by
  rw [← List.nil_append stack, enterValue_append] at h
  exact above_open hstack h

private theorem enterString_open {stack : List Frame} {c : UInt8}
    {next : Scanner} (hstack : stack ≠ []) (h : enterString stack c = some next) :
    next.stack ≠ [] := by
  rw [← List.nil_append stack, enterString_append] at h
  exact above_open hstack h

private theorem expect_open {letter c : UInt8} {mode : Mode}
    {stack : List Frame} {next : Scanner} (hstack : stack ≠ [])
    (h : expect letter mode stack c = some next) : next.stack ≠ [] := by
  rw [← List.nil_append stack, expect_append] at h
  exact above_open hstack h

theorem step_open {scanner next : Scanner} {c : UInt8}
    (hstack : scanner.stack ≠ []) (h : scanner.step c = some next) :
    next.stack ≠ [] ∨ next.isDone = true := by
  obtain ⟨mode, stack⟩ := scanner
  simp only at hstack
  cases mode
  all_goals
    simp only [step] at h
    repeat' split at h
  all_goals
    first
    | (obtain rfl := Option.some.inj h; exact .inl hstack)
    | exact leaveValue_open h
    | exact .inl (enterValue_open hstack h)
    | exact .inl (enterString_open hstack h)
    | exact .inl (expect_open hstack h)
    | simp at h

private theorem run_open {scanner last : Scanner} {text : Bytes}
    (hstack : scanner.stack ≠ []) {rest : Bytes} (hrest : rest ≠ [])
    (h : scanner.run (text ++ rest) = some last) :
    ∃ next, scanner.run text = some next ∧ next.stack ≠ [] := by
  induction text generalizing scanner with
  | nil => exact ⟨scanner, rfl, hstack⟩
  | cons c text ih =>
      rw [List.cons_append, run_cons, Option.bind_eq_some_iff] at h
      obtain ⟨next, hstep, hrun⟩ := h
      rcases step_open hstack hstep with hnext | hdone
      · obtain ⟨final, hfinal, hopen⟩ := ih hnext hrun
        exact ⟨final, by rw [run_cons_of_eq hstep, hfinal], hopen⟩
      · -- a complete text takes no further byte, but `text ++ rest` has one
        cases hcase : text ++ rest with
        | nil => simp [hrest] at hcase
        | cons d tail =>
            rw [hcase, run_cons, step_of_isDone hdone] at hrun
            simp at hrun

end Scanner

theorem Scanner.not_isDone_of_stack {scanner : Scanner}
    (h : scanner.stack ≠ []) : scanner.isDone = false := by
  simp [Scanner.isDone, h]

def Torn (text : Bytes) : Prop :=
  text.head? = some openBrace ∧
    ∃ scanner, start.run text = some scanner ∧ scanner.stack ≠ []

theorem torn_of_cut {text cut rest : Bytes} (h : IsObject text)
    (hsplit : text = cut ++ rest) (hcut : cut ≠ []) (hrest : rest ≠ []) :
    Torn cut := by
  obtain ⟨c, tail, rfl⟩ : ∃ c tail, cut = c :: tail := by
    cases cut with
    | nil => exact absurd rfl hcut
    | cons c tail => exact ⟨c, tail, rfl⟩
  have hc : c = openBrace := by
    have := h.1
    rw [hsplit] at this
    simpa using this
  subst hc
  refine ⟨rfl, ?_⟩
  have hrun := h.2
  rw [SelfDelimited, hsplit] at hrun
  have hstep : start.step openBrace = some ⟨.beginStringOrEmpty, [.objectKey]⟩ := rfl
  rw [List.cons_append, Scanner.run_cons_of_eq hstep] at hrun
  rw [Scanner.run_cons_of_eq hstep]
  exact Scanner.run_open (by simp) hrest hrun

/-- An object whose first key does not start with a JSON delimiter. -/
def KeyedObject (text : Bytes) : Prop :=
  IsObject text ∧
    ∃ c rest, text = openBrace :: quotationMark :: c :: rest ∧
      isSpace c = false ∧ c ≠ colon ∧ c ≠ comma ∧ c ≠ closeBrace ∧ c ≠ closeBracket

private theorem readValueFrom_blocked {scanner : Scanner} {c : UInt8}
    (hstack : scanner.stack ≠ []) (h : scanner.step c = none) (seen rest : Bytes) :
    readValueFrom scanner seen (c :: rest) = .error .syntaxError := by
  have hnumber : scanner.isOpenNumber = false := by
    simp [Scanner.isOpenNumber, hstack]
  simp [readValueFrom, h, hnumber]

private theorem leaveValue_plain {stack : List Frame} {c : UInt8}
    (hspace : isSpace c = false) (hcolon : c ≠ colon) (hcomma : c ≠ comma)
    (hbrace : c ≠ closeBrace) (hbracket : c ≠ closeBracket) :
    Scanner.leaveValue stack c = none := by
  cases stack with
  | nil => rfl
  | cons frame outer =>
      cases frame <;>
        simp [Scanner.leaveValue, hspace, hcolon, hcomma, hbrace, hbracket]

private theorem leaveValue_openBrace (stack : List Frame) :
    Scanner.leaveValue stack openBrace = none :=
  leaveValue_plain (by decide) (by decide) (by decide) (by decide) (by decide)

private theorem step_openBrace_cases (mode : Mode) (stack : List Frame) :
    Scanner.step ⟨mode, stack⟩ openBrace = none ∨ mode = .inString ∨
      mode = .beginValue ∨ mode = .beginValueOrEmpty := by
  cases mode
  case inString => exact .inr (.inl rfl)
  case beginValue => exact .inr (.inr (.inl rfl))
  case beginValueOrEmpty => exact .inr (.inr (.inr rfl))
  all_goals
    left
    first
    | exact leaveValue_openBrace stack
    | rfl

def lines (texts : List Bytes) : Bytes := texts.flatMap (· ++ [newline])

@[simp] theorem lines_nil : lines [] = [] := rfl

@[simp] theorem lines_cons (text : Bytes) (texts : List Bytes) :
    lines (text :: texts) = text ++ (newline :: lines texts) := by
  simp [lines]

private theorem readValueFrom_after {stack : List Frame} (hstack : stack ≠ [])
    {texts : List Bytes} (h : ∀ text ∈ texts, KeyedObject text) (seen : Bytes) :
    ∃ e, readValueFrom ⟨.endValue, stack⟩ seen (newline :: lines texts) = .error e := by
  -- Behind a finished inner value an open object takes no further record.
  obtain ⟨frame, outer, rfl⟩ := List.exists_cons_of_ne_nil hstack
  have hstep : Scanner.step ⟨.endValue, frame :: outer⟩ newline =
      some ⟨.endValue, frame :: outer⟩ := rfl
  have hdone : Scanner.isDone ⟨.endValue, frame :: outer⟩ = false := rfl
  simp only [readValueFrom, hstep, hdone, Bool.false_eq_true, if_false]
  cases texts with
  | nil => exact ⟨.unexpectedEOF, rfl⟩
  | cons text texts =>
      obtain ⟨-, c, rest, rfl, -⟩ := h text List.mem_cons_self
      have hblocked : Scanner.step ⟨.endValue, frame :: outer⟩ openBrace = none :=
        leaveValue_openBrace (frame :: outer)
      exact ⟨.syntaxError, readValueFrom_blocked hstack hblocked _ _⟩

private theorem readValueFrom_nested {stack : List Frame} (hstack : stack ≠ [])
    {text : Bytes} {texts : List Bytes} (htext : KeyedObject text)
    (h : ∀ text ∈ texts, KeyedObject text) (seen : Bytes) :
    ∃ e, readValueFrom ⟨.beginValue, stack⟩ seen (lines (text :: texts)) =
      .error e := by
  have hrun : Scanner.run ⟨.beginValue, stack⟩ text = some ⟨.endValue, stack⟩ := by
    simpa [start] using Scanner.run_stack htext.1.2 stack
  have hinner := readValueFrom_open hrun
    (Scanner.not_isDone_of_stack hstack) seen (newline :: lines texts)
  obtain ⟨e, he⟩ := readValueFrom_after hstack h (seen ++ text)
  refine ⟨e, ?_⟩
  rw [lines_cons]
  exact hinner.trans he

private theorem readValueFrom_inString {stack : List Frame} (hstack : stack ≠ [])
    {text : Bytes} (htext : KeyedObject text) (seen rest : Bytes) :
    ∃ e, readValueFrom ⟨.inString, stack⟩ seen (text ++ rest) = .error e := by
  obtain ⟨-, c, tail, rfl, hspace, hcolon, hcomma, hbrace, hbracket⟩ := htext
  have hbraceStep : Scanner.step ⟨.inString, stack⟩ openBrace =
      some ⟨.inString, stack⟩ := rfl
  have hquoteStep : Scanner.step ⟨.inString, stack⟩ quotationMark =
      some ⟨.endValue, stack⟩ := rfl
  have hopen : Scanner.isDone ⟨.inString, stack⟩ = false := rfl
  have hopen' : Scanner.isDone ⟨.endValue, stack⟩ = false :=
    Scanner.not_isDone_of_stack hstack
  refine ⟨.syntaxError, ?_⟩
  simp only [List.cons_append]
  rw [readValueFrom]
  simp only [hbraceStep, hopen, Bool.false_eq_true, if_false]
  rw [readValueFrom]
  simp only [hquoteStep, hopen', Bool.false_eq_true, if_false]
  have hblocked : Scanner.step ⟨.endValue, stack⟩ c = none :=
    leaveValue_plain hspace hcolon hcomma hbrace hbracket
  exact readValueFrom_blocked hstack hblocked _ _

/--
An interrupted object swallows the records behind it: whatever the scanner was
in the middle of, the stream ends or breaks before the object is closed.
-/
theorem readValueFrom_torn {scanner : Scanner} (hstack : scanner.stack ≠ [])
    {texts : List Bytes} (h : ∀ text ∈ texts, KeyedObject text) (seen : Bytes) :
    ∃ e, readValueFrom scanner seen (lines texts) = .error e := by
  obtain ⟨mode, stack⟩ := scanner
  simp only at hstack
  cases texts with
  | nil =>
      refine ⟨.unexpectedEOF, ?_⟩
      simp [readValueFrom, Scanner.isOpenNumber, hstack]
  | cons text texts =>
      have htext := h text List.mem_cons_self
      have hrest : ∀ text ∈ texts, KeyedObject text :=
        fun t ht => h t (List.mem_cons_of_mem text ht)
      rcases step_openBrace_cases mode stack with hnone | rfl | rfl | rfl
      · obtain ⟨-, c, rest, rfl, -⟩ := htext
        exact ⟨.syntaxError, readValueFrom_blocked hstack hnone _ _⟩
      · rw [lines_cons]
        exact readValueFrom_inString hstack htext seen _
      · exact readValueFrom_nested hstack htext hrest seen
      · obtain ⟨e, he⟩ := readValueFrom_nested hstack htext hrest seen
        refine ⟨e, ?_⟩
        rw [← he]
        obtain ⟨-, c, rest, rfl, -⟩ := htext
        rfl

theorem decodeAll_torn (unmarshal : Bytes → Option α) {cut : Bytes}
    (hcut : Torn cut) {texts : List Bytes}
    (h : ∀ text ∈ texts, KeyedObject text) :
    ∃ e, decodeAll unmarshal (cut ++ lines texts) = ([], some e) := by
  obtain ⟨hhead, scanner, hrun, hstack⟩ := hcut
  obtain ⟨tail, rfl⟩ : ∃ tail, cut = openBrace :: tail := by
    cases cut with
    | nil => simp at hhead
    | cons c tail => exact ⟨tail, by simpa using hhead⟩
  obtain ⟨e, he⟩ := readValueFrom_torn hstack h (openBrace :: tail)
  have hread : readValue (openBrace :: tail ++ lines texts) = .error e :=
    (readValueFrom_open hrun (Scanner.not_isDone_of_stack hstack) [] _).trans he
  exact ⟨e, decodeAll_of_error unmarshal rfl hread⟩

end KloudlensAggregator.Foundation.Json
