import KloudlensAggregator.Foundation.JsonDecoder

/-!
# JSON texts of numbers, strings and objects

The texts `encoding/json` writes for numbers and strings, the members of an
object, and the proofs that reading a written text gives the value back.
-/

namespace KloudlensAggregator.Foundation.Json

/-! ## Texts of values -/

/--
A text the scanner accepts as one value, without leading space.  A number may
still be open at its end; the delimiter behind it closes it.
-/
structure ValueText (text : Bytes) : Prop where
  head : ∃ c rest, text = c :: rest ∧ isSpace c = false
  scans : ∃ mode, start.run text = some ⟨mode, []⟩ ∧
    (mode = .endValue ∨ Scanner.isOpenNumber ⟨mode, []⟩ = true)

def IsDelimiter (c : UInt8) : Prop := c = comma ∨ c = closeBrace

theorem IsObject.valueText {text : Bytes} (h : IsObject text) :
    ValueText text := by
  refine ⟨?_, .endValue, h.2, .inl rfl⟩
  cases text with
  | nil => simp [IsObject] at h
  | cons c rest =>
      have hc : c = openBrace := by simpa using h.1
      exact ⟨c, rest, rfl, by rw [hc]; rfl⟩

private theorem step_delimiter {mode : Mode} {c : UInt8}
    (hmode : mode = .endValue ∨ Scanner.isOpenNumber ⟨mode, []⟩ = true)
    (hc : IsDelimiter c) (stack : List Frame) :
    Scanner.step ⟨mode, stack⟩ c = Scanner.leaveValue stack c := by
  simp only [Scanner.isOpenNumber, BEq.rfl, Bool.true_and, Bool.or_eq_true, beq_iff_eq,
    or_assoc] at hmode
  rcases hmode with rfl | rfl | rfl | rfl | rfl <;> rcases hc with rfl | rfl <;> rfl

theorem ValueText.run_append {text : Bytes} (h : ValueText text) {c : UInt8}
    (hc : IsDelimiter c) (stack : List Frame) (rest : Bytes) :
    Scanner.run ⟨.beginValue, stack⟩ (text ++ c :: rest) =
      (Scanner.leaveValue stack c).bind fun next => next.run rest := by
  obtain ⟨-, mode, hrun, hmode⟩ := h
  have hrun' : Scanner.run ⟨.beginValue, stack⟩ text = some ⟨mode, stack⟩ := by
    simpa [start] using Scanner.run_stack hrun stack
  rw [Scanner.run_append_of_eq hrun', Scanner.run_cons,
    step_delimiter hmode hc]

theorem ValueText.readValue_append {text : Bytes} (h : ValueText text)
    {c : UInt8} (hc : IsDelimiter c) (rest : Bytes) :
    readValue (text ++ c :: rest) = .ok (text, c :: rest) := by
  obtain ⟨-, mode, hrun, hmode⟩ := h
  rcases hmode with rfl | hmode
  · exact readValue_of_selfDelimited hrun (c :: rest)
  · have hopen : Scanner.isDone ⟨mode, []⟩ = false := by
      rw [Bool.eq_false_iff]
      intro hdone
      cases Scanner.isDone_iff.mp hdone
      cases hmode
    have hstep : Scanner.step ⟨mode, []⟩ c = none :=
      step_delimiter (.inr hmode) hc []
    rw [readValue, readValueFrom_open hrun hopen, readValueFrom]
    simp [hstep, hmode]

/-! ## Numbers -/

def digitByte (digit : Nat) : UInt8 := UInt8.ofNat (48 + digit)

def natText (n : Nat) : Bytes :=
  (Nat.toDigits 10 n).map fun c => UInt8.ofNat c.toNat

def intText : Int → Bytes
  | .ofNat n => natText n
  | .negSucc n => 0x2D :: natText (n + 1)

def parseNat (text : Bytes) : Option Nat :=
  if text ≠ [] ∧ text.all isDigit = true then
    some (text.foldl (fun sofar c => 10 * sofar + (c.toNat - 48)) 0)
  else none

def parseInt : Bytes → Option Int
  | [] => none
  | c :: text =>
      if c = 0x2D then (parseNat text).map fun n => -(n : Int)
      else (parseNat (c :: text)).map fun n => (n : Int)

theorem natText_of_lt {n : Nat} (h : n < 10) : natText n = [digitByte n] := by
  simp [natText, digitByte, Nat.toDigits_of_lt_base h,
    Nat.toNat_digitChar_of_lt_ten h]

theorem natText_of_le {n : Nat} (h : 10 ≤ n) :
    natText n = natText (n / 10) ++ [digitByte (n % 10)] := by
  simp [natText, digitByte, Nat.toDigits_of_base_le (by decide) h,
    Nat.toNat_digitChar_of_lt_ten (Nat.mod_lt n (by decide))]

private theorem isDigit_digitByte : ∀ d < 10, isDigit (digitByte d) = true := by
  decide

private theorem toNat_digitByte : ∀ d < 10, (digitByte d).toNat - 48 = d := by
  decide

private theorem step_digitByte :
    ∀ d < 10, Scanner.step ⟨.digits, []⟩ (digitByte d) = some ⟨.digits, []⟩ := by
  decide

private theorem natText_digits (n : Nat) :
    natText n ≠ [] ∧ (natText n).all isDigit = true ∧
      (natText n).foldl (fun sofar c => 10 * sofar + (c.toNat - 48)) 0 = n := by
  induction n using Nat.strong_induction_on with
  | _ n ih =>
      rcases Nat.lt_or_ge n 10 with hlt | hge
      · rw [natText_of_lt hlt]
        simp [isDigit_digitByte n hlt, toNat_digitByte n hlt]
      · obtain ⟨-, hall, hfold⟩ := ih (n / 10) (by omega)
        have hmod : n % 10 < 10 := Nat.mod_lt n (by decide)
        rw [natText_of_le hge]
        refine ⟨by simp, ?_, ?_⟩
        · simp [hall, isDigit_digitByte _ hmod]
        · rw [List.foldl_append, hfold, List.foldl_cons, List.foldl_nil,
            toNat_digitByte _ hmod]
          omega

@[simp] theorem parseNat_natText (n : Nat) : parseNat (natText n) = some n := by
  obtain ⟨hne, hall, hfold⟩ := natText_digits n
  simp [parseNat, hne, hall, hfold]

@[simp] theorem parseInt_intText (i : Int) : parseInt (intText i) = some i := by
  cases i with
  | ofNat n =>
      obtain ⟨hne, hall, -⟩ := natText_digits n
      obtain ⟨c, text, htext⟩ := List.exists_cons_of_ne_nil hne
      have hc : c ≠ 0x2D := by
        rintro rfl
        rw [htext] at hall
        simp [isDigit] at hall
      have hparse := parseNat_natText n
      rw [htext] at hparse
      simp [intText, htext, parseInt, hc, hparse]
  | negSucc n =>
      simp [intText, parseInt, Int.negSucc_eq]

private theorem run_natText_pos {scanner : Scanner} {n : Nat} (hn : 0 < n)
    (hfirst : ∀ d < 10, 0 < d →
      scanner.step (digitByte d) = some ⟨.digits, []⟩) :
    scanner.run (natText n) = some ⟨.digits, []⟩ := by
  induction n using Nat.strong_induction_on with
  | _ n ih =>
      rcases Nat.lt_or_ge n 10 with hlt | hge
      · rw [natText_of_lt hlt, Scanner.run_cons_of_eq (hfirst n hlt hn)]
        rfl
      · rw [natText_of_le hge,
          Scanner.run_append_of_eq (ih (n / 10) (by omega) (by omega)),
          Scanner.run_cons_of_eq (step_digitByte _ (Nat.mod_lt n (by decide)))]
        rfl

private theorem start_step_digitByte :
    ∀ d < 10, 0 < d → start.step (digitByte d) = some ⟨.digits, []⟩ := by
  decide

private theorem neg_step_digitByte :
    ∀ d < 10, 0 < d →
      Scanner.step ⟨.neg, []⟩ (digitByte d) = some ⟨.digits, []⟩ := by
  decide

private theorem isSpace_of_isDigit {c : UInt8} (h : isDigit c = true) :
    isSpace c = false := by
  rw [Bool.eq_false_iff]
  intro hspace
  simp only [isSpace, Bool.or_eq_true, beq_iff_eq, or_assoc] at hspace
  rcases hspace with rfl | rfl | rfl | rfl <;> exact absurd h (by decide)

private theorem natText_head (n : Nat) :
    ∃ c rest, natText n = c :: rest ∧ isSpace c = false := by
  obtain ⟨hne, hall, -⟩ := natText_digits n
  obtain ⟨c, rest, htext⟩ := List.exists_cons_of_ne_nil hne
  have hdigit : isDigit c = true := by
    rw [htext] at hall
    simp only [List.all_cons, Bool.and_eq_true] at hall
    exact hall.1
  exact ⟨c, rest, htext, isSpace_of_isDigit hdigit⟩

theorem valueText_natText (n : Nat) : ValueText (natText n) := by
  refine ⟨natText_head n, ?_⟩
  rcases Nat.eq_zero_or_pos n with rfl | hn
  · exact ⟨.zero, by decide, .inr rfl⟩
  · exact ⟨.digits, run_natText_pos hn start_step_digitByte, .inr rfl⟩

theorem valueText_intText (i : Int) : ValueText (intText i) := by
  cases i with
  | ofNat n => exact valueText_natText n
  | negSucc n =>
      have hminus : start.step 0x2D = some ⟨.neg, []⟩ := by decide
      refine ⟨⟨_, _, rfl, by decide⟩, .digits, ?_, .inr rfl⟩
      rw [intText, Scanner.run_cons_of_eq hminus]
      exact run_natText_pos (Nat.succ_pos n) neg_step_digitByte

/-! ## Strings -/

def hexByte (digit : Nat) : UInt8 :=
  UInt8.ofNat (if digit < 10 then 48 + digit else 87 + digit)

def hexValue (c : UInt8) : Nat :=
  if isDigit c then c.toNat - 48
  else if 0x61 ≤ c then c.toNat - 87
  else c.toNat - 55

def unicodeEscape (code : Nat) : Bytes :=
  [backslash, 0x75, hexByte (code / 4096 % 16), hexByte (code / 256 % 16),
    hexByte (code / 16 % 16), hexByte (code % 16)]

def shortEscape (code : Nat) : Option UInt8 :=
  if code = 0x22 then some quotationMark
  else if code = 0x5C then some backslash
  else if code = 0x08 then some 0x62
  else if code = 0x0C then some 0x66
  else if code = 0x0A then some 0x6E
  else if code = 0x0D then some 0x72
  else if code = 0x09 then some 0x74
  else none

def needsUnicodeEscape (code : Nat) : Bool :=
  code < 0x20 || code == 0x3C || code == 0x3E || code == 0x26 ||
    code == 0x2028 || code == 0x2029

def quoteChar (c : Char) : Bytes :=
  match shortEscape c.toNat with
  | some letter => [backslash, letter]
  | none =>
      if needsUnicodeEscape c.toNat then unicodeEscape c.toNat
      else String.utf8EncodeChar c

def quote (s : String) : Bytes :=
  quotationMark :: (s.toList.flatMap quoteChar ++ [quotationMark])

def unescape (letter : UInt8) : Option UInt8 :=
  if letter = quotationMark then some quotationMark
  else if letter = backslash then some backslash
  else if letter = 0x2F then some 0x2F
  else if letter = 0x62 then some 0x08
  else if letter = 0x66 then some 0x0C
  else if letter = 0x6E then some 0x0A
  else if letter = 0x72 then some 0x0D
  else if letter = 0x74 then some 0x09
  else none

/--
The bytes a string literal stands for, without its quotation marks.  Escapes
of surrogates, which no marshalled text contains, are refused.
-/
def unquoteBody : Bytes → Option Bytes
  | [] => some []
  | c :: text =>
      if c = backslash then
        match text with
        | [] => none
        | letter :: text =>
            if letter = 0x75 then
              match text with
              | h₁ :: h₂ :: h₃ :: h₄ :: text =>
                  (charOfCode (hexValue h₁ * 4096 + hexValue h₂ * 256 +
                    hexValue h₃ * 16 + hexValue h₄)).bind fun char =>
                    (unquoteBody text).map (String.utf8EncodeChar char ++ ·)
              | _ => none
            else
              (unescape letter).bind fun byte => (unquoteBody text).map (byte :: ·)
      else (unquoteBody text).map (c :: ·)

def unquote : Bytes → Option String
  | [] => none
  | c :: text =>
      if c = quotationMark then
        ((unquoteBody text.dropLast).bind decodeUtf8).map String.ofList
      else none

private theorem isHex_hexByte : ∀ d < 16, isHex (hexByte d) = true := by decide

private theorem hexValue_hexByte : ∀ d < 16, hexValue (hexByte d) = d := by decide

def IsPlain (c : UInt8) : Prop :=
  ¬ c < 0x20 ∧ c ≠ quotationMark ∧ c ≠ backslash

theorem run_plain {text : Bytes} (h : ∀ c ∈ text, IsPlain c) :
    Scanner.run ⟨.inString, []⟩ text = some ⟨.inString, []⟩ := by
  induction text with
  | nil => rfl
  | cons c text ih =>
      obtain ⟨hcontrol, hquote, hbackslash⟩ := h c List.mem_cons_self
      have hstep : Scanner.step ⟨.inString, []⟩ c = some ⟨.inString, []⟩ := by
        simp [Scanner.step, hcontrol, hquote, hbackslash]
      rw [Scanner.run_cons_of_eq hstep]
      exact ih fun d hd => h d (List.mem_cons_of_mem c hd)

theorem unquoteBody_plain {text : Bytes} (h : ∀ c ∈ text, IsPlain c)
    (rest : Bytes) :
    unquoteBody (text ++ rest) = (unquoteBody rest).map (text ++ ·) := by
  induction text with
  | nil => simp
  | cons c text ih =>
      obtain ⟨-, -, hbackslash⟩ := h c List.mem_cons_self
      rw [List.cons_append, unquoteBody.eq_def]
      simp only [hbackslash, if_false]
      rw [ih fun d hd => h d (List.mem_cons_of_mem c hd), Option.map_map]
      rfl

private theorem run_shortEscape {code : Nat} {letter : UInt8}
    (h : shortEscape code = some letter) :
    Scanner.run ⟨.inString, []⟩ [backslash, letter] = some ⟨.inString, []⟩ := by
  unfold shortEscape at h
  split_ifs at h
  all_goals
    obtain rfl := Option.some.inj h
    decide

private theorem unquoteBody_shortEscape {code : Nat} {letter : UInt8}
    (h : shortEscape code = some letter) (rest : Bytes) :
    unquoteBody ([backslash, letter] ++ rest) =
      (unquoteBody rest).map ((utf8Codes code).map UInt8.ofNat ++ ·) := by
  unfold shortEscape at h
  split_ifs at h
  all_goals
    obtain rfl := Option.some.inj h
    subst code
    rw [List.cons_append, unquoteBody.eq_def]
    rfl

private theorem run_unicodeEscape (code : Nat) :
    Scanner.run ⟨.inString, []⟩ (unicodeEscape code) = some ⟨.inString, []⟩ := by
  have hex : ∀ n, isHex (hexByte (n % 16)) = true := fun n =>
    isHex_hexByte _ (Nat.mod_lt n (by decide))
  have hbackslash : Scanner.step ⟨.inString, []⟩ backslash =
      some ⟨.inStringEsc, []⟩ := rfl
  have hletter : Scanner.step ⟨.inStringEsc, []⟩ 0x75 =
      some ⟨.inStringEscU 4, []⟩ := rfl
  unfold unicodeEscape
  rw [Scanner.run_cons_of_eq hbackslash, Scanner.run_cons_of_eq hletter]
  simp [Scanner.run_cons, Scanner.step, hex]

private theorem unquoteBody_unicodeEscape {c : Char} (hcode : c.toNat < 65536)
    (rest : Bytes) :
    unquoteBody (unicodeEscape c.toNat ++ rest) =
      (unquoteBody rest).map (String.utf8EncodeChar c ++ ·) := by
  have hex : ∀ n, hexValue (hexByte (n % 16)) = n % 16 := fun n =>
    hexValue_hexByte _ (Nat.mod_lt n (by decide))
  have hsum : c.toNat / 4096 % 16 * 4096 + c.toNat / 256 % 16 * 256 +
      c.toNat / 16 % 16 * 16 + c.toNat % 16 = c.toNat := by
    omega
  rw [unicodeEscape, List.cons_append, unquoteBody.eq_def]
  simp [hex, hsum, charOfCode_toNat]

private theorem quoteChar_plain {c : Char} (hshort : shortEscape c.toNat = none)
    (hescape : needsUnicodeEscape c.toNat = false) :
    ∀ b ∈ String.utf8EncodeChar c, IsPlain b := by
  intro b hb
  rw [utf8EncodeChar_eq] at hb
  obtain ⟨n, hn, rfl⟩ := List.mem_map.mp hb
  have hquote : c.toNat ≠ 0x22 := by
    intro h
    simp [shortEscape, h] at hshort
  have hbackslash : c.toNat ≠ 0x5C := by
    intro h
    simp [shortEscape, h] at hshort
  have hcontrol : 0x20 ≤ c.toNat := by
    by_contra h
    have : c.toNat < 0x20 := by omega
    simp [needsUnicodeEscape, this] at hescape
  have hbounds : 0x20 ≤ n ∧ n < 256 ∧ n ≠ 0x22 ∧ n ≠ 0x5C := by
    rcases Nat.lt_or_ge c.toNat 0x80 with hlt | hge
    · have hle : c.toNat ≤ 0x7f := by omega
      simp only [utf8Codes, hle, if_true, List.mem_singleton] at hn
      omega
    · have := utf8Codes_plain hge n hn
      omega
  have hbyte : (UInt8.ofNat n).toNat = n := toNat_ofNat_of_lt hbounds.2.1
  refine ⟨?_, ?_, ?_⟩
  · rw [UInt8.lt_iff_toNat_lt, hbyte]
    exact Nat.not_lt.mpr hbounds.1
  · intro h
    have := congrArg UInt8.toNat h
    rw [hbyte] at this
    exact hbounds.2.2.1 this
  · intro h
    have := congrArg UInt8.toNat h
    rw [hbyte] at this
    exact hbounds.2.2.2 this

private theorem run_quoteChar (c : Char) :
    Scanner.run ⟨.inString, []⟩ (quoteChar c) = some ⟨.inString, []⟩ := by
  unfold quoteChar
  cases hshort : shortEscape c.toNat with
  | some letter => exact run_shortEscape hshort
  | none =>
      cases hescape : needsUnicodeEscape c.toNat with
      | true => simpa using run_unicodeEscape c.toNat
      | false => simpa using run_plain (quoteChar_plain hshort hescape)

private theorem unquoteBody_quoteChar (c : Char) (rest : Bytes) :
    unquoteBody (quoteChar c ++ rest) =
      (unquoteBody rest).map (String.utf8EncodeChar c ++ ·) := by
  unfold quoteChar
  cases hshort : shortEscape c.toNat with
  | some letter =>
      rw [utf8EncodeChar_eq]
      exact unquoteBody_shortEscape hshort rest
  | none =>
      cases hescape : needsUnicodeEscape c.toNat with
      | true =>
          have hcode : c.toNat < 65536 := by
            simp [needsUnicodeEscape] at hescape
            omega
          simpa using unquoteBody_unicodeEscape hcode rest
      | false => simpa using unquoteBody_plain (quoteChar_plain hshort hescape) rest

theorem selfDelimited_quote (s : String) : SelfDelimited (quote s) := by
  have hbody : ∀ chars : List Char,
      Scanner.run ⟨.inString, []⟩ (chars.flatMap quoteChar) =
        some ⟨.inString, []⟩ := by
    intro chars
    induction chars with
    | nil => rfl
    | cons c chars ih =>
        rw [List.flatMap_cons, Scanner.run_append_of_eq (run_quoteChar c), ih]
  have hopen : start.step quotationMark = some ⟨.inString, []⟩ := rfl
  unfold SelfDelimited quote
  rw [Scanner.run_cons_of_eq hopen, Scanner.run_append_of_eq (hbody s.toList)]
  rfl

/-- A text whose first quotation mark is closed by its last byte. -/
def IsStringLiteral (text : Bytes) : Prop :=
  text.head? = some quotationMark ∧ SelfDelimited text

theorem isStringLiteral_quote (s : String) : IsStringLiteral (quote s) :=
  ⟨rfl, selfDelimited_quote s⟩

theorem IsStringLiteral.valueText {text : Bytes} (h : IsStringLiteral text) :
    ValueText text := by
  refine ⟨?_, .endValue, h.2, .inl rfl⟩
  obtain ⟨rest, rfl⟩ : ∃ rest, text = quotationMark :: rest := List.head?_eq_some_iff.mp h.1
  exact ⟨quotationMark, rest, rfl, by decide⟩

theorem valueText_quote (s : String) : ValueText (quote s) :=
  (isStringLiteral_quote s).valueText

theorem isStringLiteral_plain {text : Bytes} (h : ∀ c ∈ text, IsPlain c) :
    IsStringLiteral (quotationMark :: (text ++ [quotationMark])) := by
  have hopen : start.step quotationMark = some ⟨.inString, []⟩ := rfl
  refine ⟨rfl, ?_⟩
  rw [SelfDelimited, Scanner.run_cons_of_eq hopen, Scanner.run_append_of_eq (run_plain h)]
  rfl

theorem unquote_plain {text : Bytes} (h : ∀ c ∈ text, IsPlain c) :
    unquote (quotationMark :: (text ++ [quotationMark])) =
      (decodeUtf8 text).map String.ofList := by
  have hbody : unquoteBody text = some text := by
    simpa [unquoteBody] using unquoteBody_plain h []
  simp [unquote, hbody]

def Mode.inLiteral : Mode → Bool
  | .inString => true
  | .inStringEsc => true
  | .inStringEscU _ => true
  | _ => false

private theorem isEscape_printable {c : UInt8} (h : Scanner.isEscape c = true) : ¬ c < 0x20 := by
  simp only [Scanner.isEscape, Bool.or_eq_true, beq_iff_eq, or_assoc] at h
  rcases h with rfl | rfl | rfl | rfl | rfl | rfl | rfl | rfl <;> decide

private theorem isHex_printable {c : UInt8} (h : isHex c = true) : ¬ c < 0x20 := by
  simp only [isHex, isDigit, Bool.or_eq_true, Bool.and_eq_true, decide_eq_true_eq] at h
  simp only [UInt8.le_iff_toNat_le, UInt8.lt_iff_toNat_lt, UInt8.reduceToNat] at h ⊢
  omega

private theorem step_inLiteral {mode : Mode} (hmode : mode.inLiteral = true) {c : UInt8}
    {next : Scanner} (hstep : Scanner.step ⟨mode, []⟩ c = some next) :
    ¬ c < 0x20 ∧ (next.isDone = true ∨ ∃ mode', mode'.inLiteral = true ∧ next = ⟨mode', []⟩) := by
  cases mode with
  | inString =>
      simp only [Scanner.step] at hstep
      split at hstep
      · rename_i hquote
        cases hstep
        exact ⟨by rw [hquote]; decide, .inl rfl⟩
      · split at hstep
        · rename_i hbackslash
          cases hstep
          exact ⟨by rw [hbackslash]; decide, .inr ⟨_, rfl, rfl⟩⟩
        · split at hstep
          · cases hstep
          · cases hstep
            exact ⟨by assumption, .inr ⟨_, rfl, rfl⟩⟩
  | inStringEsc =>
      simp only [Scanner.step] at hstep
      split at hstep
      · rename_i hescape
        cases hstep
        exact ⟨isEscape_printable hescape, .inr ⟨_, rfl, rfl⟩⟩
      · split at hstep
        · rename_i hletter
          cases hstep
          exact ⟨by rw [hletter]; decide, .inr ⟨_, rfl, rfl⟩⟩
        · cases hstep
  | inStringEscU missing =>
      simp only [Scanner.step] at hstep
      split at hstep
      · rename_i hhex
        cases hstep
        refine ⟨isHex_printable hhex, .inr ⟨_, ?_, rfl⟩⟩
        split <;> rfl
      · cases hstep
  | _ => cases hmode

private theorem run_inLiteral {mode : Mode} (hmode : mode.inLiteral = true) {text : Bytes}
    {last : Scanner} (hrun : Scanner.run ⟨mode, []⟩ text = some last) :
    ∀ c ∈ text, ¬ c < 0x20 := by
  induction text generalizing mode with
  | nil => simp
  | cons c text ih =>
      rw [Scanner.run_cons, Option.bind_eq_some_iff] at hrun
      obtain ⟨next, hstep, hrest⟩ := hrun
      obtain ⟨hprintable, hdone | ⟨mode', hmode', rfl⟩⟩ := step_inLiteral hmode hstep
      · cases text with
        | nil => simpa using hprintable
        | cons d text =>
            rw [Scanner.run_cons, Scanner.step_of_isDone hdone] at hrest
            cases hrest
      · rw [List.forall_mem_cons]
        exact ⟨hprintable, ih hmode' hrest⟩

theorem IsStringLiteral.printable {text : Bytes} (h : IsStringLiteral text) :
    ∀ c ∈ text, ¬ c < 0x20 := by
  obtain ⟨rest, rfl⟩ : ∃ rest, text = quotationMark :: rest := List.head?_eq_some_iff.mp h.1
  have hopen : start.step quotationMark = some ⟨.inString, []⟩ := rfl
  have hrun := h.2
  rw [SelfDelimited, Scanner.run_cons_of_eq hopen] at hrun
  rw [List.forall_mem_cons]
  exact ⟨by decide, run_inLiteral rfl hrun⟩

theorem IsStringLiteral.newline_not_mem {text : Bytes} (h : IsStringLiteral text) :
    newline ∉ text :=
  fun hmem => h.printable newline hmem (by decide)

@[simp] theorem unquote_quote (s : String) : unquote (quote s) = some s := by
  have hbody : ∀ chars : List Char, unquoteBody (chars.flatMap quoteChar) =
      some (chars.flatMap String.utf8EncodeChar) := by
    intro chars
    induction chars with
    | nil => rfl
    | cons c chars ih =>
        rw [List.flatMap_cons, unquoteBody_quoteChar, ih]
        rfl
  simp [unquote, quote, hbody, decodeUtf8_flatMap]

/-! ## Objects -/

def fieldText (field : String × Bytes) : Bytes :=
  quote field.1 ++ colon :: field.2

def fieldsText : List (String × Bytes) → Bytes
  | [] => [closeBrace]
  | [field] => fieldText field ++ [closeBrace]
  | field :: next :: fields => fieldText field ++ comma :: fieldsText (next :: fields)

def objectText (fields : List (String × Bytes)) : Bytes :=
  openBrace :: fieldsText fields

def membersLoop : Nat → Bytes → Option (List (String × Bytes))
  | 0, _ => none
  | fuel + 1, stream =>
      match readValue (skipSpaces stream) with
      | .error _ => none
      | .ok (key, stream) =>
          match skipSpaces stream with
          | [] => none
          | c :: stream =>
              if c = colon then
                match readValue (skipSpaces stream) with
                | .error _ => none
                | .ok (value, stream) =>
                    match skipSpaces stream with
                    | [] => none
                    | c :: stream =>
                        (unquote key).bind fun name =>
                          if c = comma then
                            (membersLoop fuel stream).map ((name, value) :: ·)
                          else if c = closeBrace then some [(name, value)]
                          else none
              else none

def members (text : Bytes) : Option (List (String × Bytes)) :=
  match skipSpaces text with
  | [] => none
  | c :: rest =>
      if c = openBrace then
        match skipSpaces rest with
        | [] => none
        | d :: _ => if d = closeBrace then some [] else membersLoop rest.length rest
      else none

def member (fields : List (String × Bytes)) (name : String) : Option Bytes :=
  (fields.reverse.find? fun field => field.1 == name).map Prod.snd

private theorem skipSpaces_cons {c : UInt8} (h : isSpace c = false) (rest : Bytes) :
    skipSpaces (c :: rest) = c :: rest := by
  simp [skipSpaces, h]

private theorem ValueText.skipSpaces_append {text : Bytes} (h : ValueText text)
    (rest : Bytes) : skipSpaces (text ++ rest) = text ++ rest := by
  obtain ⟨c, tail, rfl, hc⟩ := h.head
  exact skipSpaces_cons hc (tail ++ rest)

private theorem membersLoop_field (fuel : Nat) {field : String × Bytes}
    (hvalue : ValueText field.2) {c : UInt8} (hc : IsDelimiter c) (rest : Bytes) :
    membersLoop (fuel + 1) (fieldText field ++ c :: rest) =
      if c = comma then (membersLoop fuel rest).map (field :: ·) else some [field] := by
  -- What one field takes off the stream; only its delimiter is left to look at.
  obtain ⟨name, value⟩ := field
  have hstream : fieldText (name, value) ++ c :: rest =
      quote name ++ (colon :: (value ++ c :: rest)) := by
    simp [fieldText]
  have hkey := readValue_of_selfDelimited (selfDelimited_quote name)
    (colon :: (value ++ c :: rest))
  have hcolon : skipSpaces (colon :: (value ++ c :: rest)) =
      colon :: (value ++ c :: rest) := skipSpaces_cons (by decide) _
  have hspace : isSpace c = false := by rcases hc with rfl | rfl <;> decide
  rw [hstream, membersLoop, (valueText_quote name).skipSpaces_append, hkey]
  simp only [hcolon, if_true, hvalue.skipSpaces_append, hvalue.readValue_append hc,
    skipSpaces_cons hspace, unquote_quote, Option.bind_some]
  rcases hc with rfl | rfl
  · rfl
  · rfl

private theorem membersLoop_fieldsText {fields : List (String × Bytes)}
    (hne : fields ≠ []) (hvalues : ∀ field ∈ fields, ValueText field.2)
    {fuel : Nat} (hfuel : fields.length ≤ fuel) :
    membersLoop fuel (fieldsText fields) = some fields := by
  induction fields generalizing fuel with
  | nil => exact absurd rfl hne
  | cons field fields ih =>
      obtain ⟨fuel, rfl⟩ : ∃ f, fuel = f + 1 :=
        ⟨fuel - 1, by simp only [List.length_cons] at hfuel; omega⟩
      have hvalue := hvalues field List.mem_cons_self
      cases fields with
      | nil => exact membersLoop_field fuel hvalue (.inr rfl) []
      | cons next fields =>
          rw [fieldsText, membersLoop_field fuel hvalue (.inl rfl), if_pos rfl,
            ih (by simp) (fun f hf => hvalues f (List.mem_cons_of_mem field hf))
              (by simp only [List.length_cons] at hfuel ⊢; omega)]
          rfl

private theorem fieldsText_length (fields : List (String × Bytes)) :
    fields.length ≤ (fieldsText fields).length := by
  induction fields with
  | nil => simp [fieldsText]
  | cons field fields ih =>
      cases fields with
      | nil =>
          simp only [fieldsText, fieldText, List.length_append, List.length_cons]
          omega
      | cons next fields =>
          simp only [fieldsText, fieldText, List.length_append, List.length_cons] at ih ⊢
          omega

private theorem fieldsText_head {fields : List (String × Bytes)} (hne : fields ≠ []) :
    ∃ rest, fieldsText fields = quotationMark :: rest := by
  cases fields with
  | nil => exact absurd rfl hne
  | cons field fields =>
      cases fields with
      | nil => exact ⟨_, rfl⟩
      | cons next fields => exact ⟨_, rfl⟩

theorem members_objectText {fields : List (String × Bytes)} (hne : fields ≠ [])
    (hvalues : ∀ field ∈ fields, ValueText field.2) :
    members (objectText fields) = some fields := by
  obtain ⟨rest, hrest⟩ := fieldsText_head hne
  have hloop := membersLoop_fieldsText hne hvalues (fieldsText_length fields)
  have hopen : skipSpaces (objectText fields) = openBrace :: fieldsText fields :=
    skipSpaces_cons (by decide) _
  have hquote : skipSpaces (fieldsText fields) = quotationMark :: rest := by
    rw [hrest]
    exact skipSpaces_cons (by decide) rest
  have hbrace : quotationMark ≠ closeBrace := by decide
  simp [members, hopen, hquote, hbrace, hloop]

private theorem run_fieldsText {fields : List (String × Bytes)} (hne : fields ≠ [])
    (hvalues : ∀ field ∈ fields, ValueText field.2) {mode : Mode}
    (hmode : mode = .beginStringOrEmpty ∨ mode = .beginString) :
    Scanner.run ⟨mode, [.objectKey]⟩ (fieldsText fields) = some ⟨.endValue, []⟩ := by
  have hkey : ∀ (mode : Mode) (name : String) (rest : Bytes),
      mode = .beginStringOrEmpty ∨ mode = .beginString →
      Scanner.run ⟨mode, [.objectKey]⟩ (quote name ++ colon :: rest) =
        Scanner.run ⟨.beginValue, [.objectValue]⟩ rest := by
    intro mode name rest hmode
    have hquote : Scanner.run ⟨.beginValue, [.objectKey]⟩ (quote name) =
        some ⟨.endValue, [.objectKey]⟩ := by
      simpa [start] using Scanner.run_stack (selfDelimited_quote name) [.objectKey]
    have hsame : Scanner.run ⟨mode, [.objectKey]⟩ (quote name) =
        Scanner.run ⟨.beginValue, [.objectKey]⟩ (quote name) := by
      rcases hmode with rfl | rfl <;> rfl
    rw [Scanner.run_append_of_eq (hsame.trans hquote)]
    rfl
  induction fields generalizing mode with
  | nil => exact absurd rfl hne
  | cons field fields ih =>
      have hvalue := hvalues field List.mem_cons_self
      cases fields with
      | nil =>
          rw [fieldsText, fieldText, List.append_assoc, List.cons_append,
            hkey mode _ _ hmode, hvalue.run_append (.inr rfl)]
          rfl
      | cons next fields =>
          rw [fieldsText, fieldText, List.append_assoc, List.cons_append,
            hkey mode _ _ hmode, hvalue.run_append (.inl rfl)]
          exact ih (by simp) (fun f hf => hvalues f (List.mem_cons_of_mem field hf))
            (.inr rfl)

theorem isObject_objectText {fields : List (String × Bytes)} (hne : fields ≠ [])
    (hvalues : ∀ field ∈ fields, ValueText field.2) :
    IsObject (objectText fields) :=
  ⟨rfl, run_fieldsText hne hvalues (.inl rfl)⟩

end KloudlensAggregator.Foundation.Json
