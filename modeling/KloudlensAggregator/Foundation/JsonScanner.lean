import KloudlensAggregator.Foundation.Utf8

/-!
# The JSON scanner

A byte-at-a-time pushdown automaton for JSON texts, in the states of the
scanner of Go's `encoding/json`, and the part of a streaming decoder that cuts
the next value off a byte stream.  Braces, brackets and quotes are written as
named byte constants.
-/

namespace KloudlensAggregator.Foundation.Json

def openBrace : UInt8 := 0x7B
def closeBrace : UInt8 := 0x7D
def openBracket : UInt8 := 0x5B
def closeBracket : UInt8 := 0x5D
def quotationMark : UInt8 := 0x22
def backslash : UInt8 := 0x5C
def comma : UInt8 := 0x2C
def colon : UInt8 := 0x3A
def newline : UInt8 := 0x0A

def isSpace (c : UInt8) : Bool :=
  c == 0x20 || c == 0x09 || c == 0x0D || c == 0x0A

def isDigit (c : UInt8) : Bool := 0x30 ≤ c && c ≤ 0x39

def isHex (c : UInt8) : Bool :=
  isDigit c || (0x61 ≤ c && c ≤ 0x66) || (0x41 ≤ c && c ≤ 0x46)

/-- What an enclosing object or array is waiting for. -/
inductive Frame where
  | objectKey
  | objectValue
  | arrayValue
  deriving DecidableEq, Repr

inductive Mode where
  | beginValue
  | beginValueOrEmpty
  | beginStringOrEmpty
  | beginString
  | endValue
  | inString
  | inStringEsc
  | inStringEscU (missing : Nat)
  | neg
  | zero
  | digits
  | dot
  | dotDigits
  | exponent
  | exponentSign
  | exponentDigits
  | t | tr | tru
  | f | fa | fal | fals
  | n | nu | nul
  deriving DecidableEq, Repr

structure Scanner where
  mode : Mode
  stack : List Frame
  deriving DecidableEq, Repr

def start : Scanner := ⟨.beginValue, []⟩

namespace Scanner

def enterValue (stack : List Frame) (c : UInt8) : Option Scanner :=
  if isSpace c then some ⟨.beginValue, stack⟩
  else if c = openBrace then some ⟨.beginStringOrEmpty, .objectKey :: stack⟩
  else if c = openBracket then some ⟨.beginValueOrEmpty, .arrayValue :: stack⟩
  else if c = quotationMark then some ⟨.inString, stack⟩
  else if c = 0x2D then some ⟨.neg, stack⟩
  else if c = 0x30 then some ⟨.zero, stack⟩
  else if c = 0x74 then some ⟨.t, stack⟩
  else if c = 0x66 then some ⟨.f, stack⟩
  else if c = 0x6E then some ⟨.n, stack⟩
  else if isDigit c then some ⟨.digits, stack⟩
  else none

def leaveValue (stack : List Frame) (c : UInt8) : Option Scanner :=
  match stack with
  | [] => none
  | frame :: outer =>
      if isSpace c then some ⟨.endValue, frame :: outer⟩
      else match frame with
        | .objectKey =>
            if c = colon then some ⟨.beginValue, .objectValue :: outer⟩ else none
        | .objectValue =>
            if c = comma then some ⟨.beginString, .objectKey :: outer⟩
            else if c = closeBrace then some ⟨.endValue, outer⟩ else none
        | .arrayValue =>
            if c = comma then some ⟨.beginValue, .arrayValue :: outer⟩
            else if c = closeBracket then some ⟨.endValue, outer⟩ else none

def enterString (stack : List Frame) (c : UInt8) : Option Scanner :=
  if isSpace c then some ⟨.beginString, stack⟩
  else if c = quotationMark then some ⟨.inString, stack⟩
  else none

def isEscape (c : UInt8) : Bool :=
  c == 0x62 || c == 0x66 || c == 0x6E || c == 0x72 || c == 0x74 ||
    c == backslash || c == 0x2F || c == quotationMark

def expect (letter : UInt8) (next : Mode) (stack : List Frame) (c : UInt8) :
    Option Scanner :=
  if c = letter then some ⟨next, stack⟩ else none

def step (scanner : Scanner) (c : UInt8) : Option Scanner :=
  let stack := scanner.stack
  match scanner.mode with
  | .beginValue => enterValue stack c
  | .beginValueOrEmpty =>
      if isSpace c then some scanner
      else if c = closeBracket then leaveValue stack c
      else enterValue stack c
  | .beginStringOrEmpty =>
      if isSpace c then some scanner
      else if c = closeBrace then
        match stack with
        | [] => none
        | _ :: outer => leaveValue (.objectValue :: outer) c
      else enterString stack c
  | .beginString => enterString stack c
  | .endValue => leaveValue stack c
  | .inString =>
      if c = quotationMark then some ⟨.endValue, stack⟩
      else if c = backslash then some ⟨.inStringEsc, stack⟩
      else if c < 0x20 then none
      else some ⟨.inString, stack⟩
  | .inStringEsc =>
      if isEscape c then some ⟨.inString, stack⟩
      else if c = 0x75 then some ⟨.inStringEscU 4, stack⟩
      else none
  | .inStringEscU missing =>
      if isHex c then
        some ⟨if missing ≤ 1 then .inString else .inStringEscU (missing - 1), stack⟩
      else none
  | .neg =>
      if c = 0x30 then some ⟨.zero, stack⟩
      else if isDigit c then some ⟨.digits, stack⟩
      else none
  | .digits =>
      if isDigit c then some ⟨.digits, stack⟩
      else if c = 0x2E then some ⟨.dot, stack⟩
      else if c = 0x65 ∨ c = 0x45 then some ⟨.exponent, stack⟩
      else leaveValue stack c
  | .zero =>
      if c = 0x2E then some ⟨.dot, stack⟩
      else if c = 0x65 ∨ c = 0x45 then some ⟨.exponent, stack⟩
      else leaveValue stack c
  | .dot => if isDigit c then some ⟨.dotDigits, stack⟩ else none
  | .dotDigits =>
      if isDigit c then some ⟨.dotDigits, stack⟩
      else if c = 0x65 ∨ c = 0x45 then some ⟨.exponent, stack⟩
      else leaveValue stack c
  | .exponent =>
      if c = 0x2B ∨ c = 0x2D then some ⟨.exponentSign, stack⟩
      else if isDigit c then some ⟨.exponentDigits, stack⟩
      else none
  | .exponentSign => if isDigit c then some ⟨.exponentDigits, stack⟩ else none
  | .exponentDigits =>
      if isDigit c then some ⟨.exponentDigits, stack⟩ else leaveValue stack c
  | .t => expect 0x72 .tr stack c
  | .tr => expect 0x75 .tru stack c
  | .tru => expect 0x65 .endValue stack c
  | .f => expect 0x61 .fa stack c
  | .fa => expect 0x6C .fal stack c
  | .fal => expect 0x73 .fals stack c
  | .fals => expect 0x65 .endValue stack c
  | .n => expect 0x75 .nu stack c
  | .nu => expect 0x6C .nul stack c
  | .nul => expect 0x6C .endValue stack c

def run (scanner : Scanner) : Bytes → Option Scanner
  | [] => some scanner
  | c :: text => (scanner.step c).bind fun next => next.run text

def isDone (scanner : Scanner) : Bool :=
  scanner.mode == .endValue && scanner.stack == []

def isOpenNumber (scanner : Scanner) : Bool :=
  scanner.stack == [] &&
    (scanner.mode == .zero || scanner.mode == .digits ||
      scanner.mode == .dotDigits || scanner.mode == .exponentDigits)

end Scanner

inductive DecodeError where
  | syntaxError
  | unexpectedEOF
  | unmarshal
  deriving DecidableEq, Repr

/-- Cut the next value off the stream; `seen` holds the bytes read so far. -/
def readValueFrom (scanner : Scanner) (seen : Bytes) :
    Bytes → Except DecodeError (Bytes × Bytes)
  | [] => if scanner.isOpenNumber then .ok (seen, []) else .error .unexpectedEOF
  | c :: rest =>
      match scanner.step c with
      | none =>
          if scanner.isOpenNumber then .ok (seen, c :: rest)
          else .error .syntaxError
      | some next =>
          if next.isDone then .ok (seen ++ [c], rest)
          else readValueFrom next (seen ++ [c]) rest

def readValue (stream : Bytes) : Except DecodeError (Bytes × Bytes) :=
  readValueFrom start [] stream

def skipSpaces (stream : Bytes) : Bytes := stream.dropWhile isSpace

def more (stream : Bytes) : Bool :=
  match skipSpaces stream with
  | [] => false
  | c :: _ => c != closeBracket && c != closeBrace

/-! ## Composing scans -/

namespace Scanner

@[simp] theorem run_nil (scanner : Scanner) : scanner.run [] = some scanner := rfl

theorem run_cons (scanner : Scanner) (c : UInt8) (text : Bytes) :
    scanner.run (c :: text) =
      (scanner.step c).bind fun next => next.run text := rfl

theorem run_append (scanner : Scanner) (first second : Bytes) :
    scanner.run (first ++ second) =
      (scanner.run first).bind fun next => next.run second := by
  induction first generalizing scanner with
  | nil => rfl
  | cons c first ih =>
      simp only [List.cons_append, run_cons]
      cases scanner.step c with
      | none => rfl
      | some next => simpa using ih next

theorem run_append_of_eq {scanner next : Scanner} {first : Bytes}
    (hfirst : scanner.run first = some next) (second : Bytes) :
    scanner.run (first ++ second) = next.run second := by
  rw [run_append, hfirst]
  rfl

theorem run_cons_of_eq {scanner next : Scanner} {c : UInt8}
    (hstep : scanner.step c = some next) (text : Bytes) :
    scanner.run (c :: text) = next.run text := by
  rw [run_cons, hstep]
  rfl

def above (scanner : Scanner) (outer : List Frame) : Scanner :=
  ⟨scanner.mode, scanner.stack ++ outer⟩

-- These three make the same tests on the byte whatever the stack is, so the frames below
-- can be added at the end.
theorem enterValue_append (stack outer : List Frame) (c : UInt8) :
    enterValue (stack ++ outer) c = (enterValue stack c).map (above · outer) := by
  simp only [enterValue, apply_ite (Option.map _), Option.map_some, Option.map_none, above,
    List.cons_append]

theorem enterString_append (stack outer : List Frame) (c : UInt8) :
    enterString (stack ++ outer) c = (enterString stack c).map (above · outer) := by
  simp only [enterString, apply_ite (Option.map _), Option.map_some, Option.map_none, above]

theorem expect_append (letter : UInt8) (mode : Mode) (stack outer : List Frame) (c : UInt8) :
    expect letter mode (stack ++ outer) c =
      (expect letter mode stack c).map (above · outer) := by
  simp only [expect, apply_ite (Option.map _), Option.map_some, Option.map_none, above]

private theorem leaveValue_stack {stack : List Frame} {c : UInt8}
    {next : Scanner} (h : leaveValue stack c = some next) (outer : List Frame) :
    leaveValue (stack ++ outer) c = some ⟨next.mode, next.stack ++ outer⟩ := by
  cases stack with
  | nil => simp [leaveValue] at h
  | cons frame inner =>
      simp only [leaveValue, List.cons_append] at h ⊢
      repeat' split at h
      all_goals
        first
        | (obtain rfl := Option.some.inj h; simp_all)
        | simp at h

theorem step_stack {scanner next : Scanner} {c : UInt8}
    (h : scanner.step c = some next) (outer : List Frame) :
    step ⟨scanner.mode, scanner.stack ++ outer⟩ c =
      some ⟨next.mode, next.stack ++ outer⟩ := by
  -- Frames below the scanned value are never looked at.
  obtain ⟨mode, stack⟩ := scanner
  cases mode
  all_goals
    simp only [step] at h ⊢
    repeat' split at h
  all_goals
    first
    | (obtain rfl := Option.some.inj h; simp_all)
    | (have h' := leaveValue_stack h outer; simp_all)
    | simp_all [enterValue_append, enterString_append, expect_append, above]

theorem run_stack {scanner next : Scanner} {text : Bytes}
    (h : scanner.run text = some next) (outer : List Frame) :
    run ⟨scanner.mode, scanner.stack ++ outer⟩ text =
      some ⟨next.mode, next.stack ++ outer⟩ := by
  induction text generalizing scanner with
  | nil =>
      obtain rfl := Option.some.inj h
      rfl
  | cons c text ih =>
      rw [run_cons, Option.bind_eq_some_iff] at h
      obtain ⟨middle, hstep, hrest⟩ := h
      rw [run_cons_of_eq (step_stack hstep outer)]
      exact ih hrest

theorem isDone_iff {scanner : Scanner} :
    scanner.isDone = true ↔ scanner = ⟨.endValue, []⟩ := by
  obtain ⟨mode, stack⟩ := scanner
  simp [isDone]

theorem step_of_isDone {scanner : Scanner} (h : scanner.isDone = true)
    (c : UInt8) : scanner.step c = none := by
  rw [isDone_iff] at h
  subst h
  rfl

end Scanner

end KloudlensAggregator.Foundation.Json
