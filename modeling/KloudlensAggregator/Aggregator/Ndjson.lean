import KloudlensAggregator.Aggregator.Emit
import KloudlensAggregator.Foundation.Lines

/-!
# The NDJSON output

Behind the seq, `emitEnvelope` writes one line: the agent and the envelope as the
two members of a JSON object.  The line is put together by hand from fragments,
with a fast path of its own for agent names.  Read back, the output is one object
for each envelope that was written, in order.
-/

namespace KloudlensAggregator.Aggregator

open KloudlensAggregator.Foundation
open KloudlensAggregator.Foundation.Json
open KloudlensAggregator.Envwal

variable {E : Type}

/-! ## Agent names -/

def isUnsafe (c : UInt8) : Bool :=
  c < 0x20 || c == quotationMark || c == backslash || 0x7f ≤ c

/-- `quote` is `json.Marshal` of a string, which does not fail. -/
def marshalJSONString (s : String) : Option Bytes :=
  if (utf8Bytes s).any isUnsafe then some (quote s)
  else some (quotationMark :: (utf8Bytes s ++ [quotationMark]))

private theorem isPlain_of_safe {c : UInt8} (h : isUnsafe c = false) : IsPlain c := by
  simp only [isUnsafe, Bool.or_eq_false_iff, decide_eq_false_iff_not, beq_eq_false_iff_ne] at h
  exact ⟨h.1.1.1, h.1.1.2, h.1.2⟩

theorem exists_marshalJSONString (s : String) :
    ∃ literal, marshalJSONString s = some literal ∧ IsStringLiteral literal ∧
      unquote literal = some s := by
  unfold marshalJSONString
  split
  · exact ⟨quote s, rfl, isStringLiteral_quote s, unquote_quote s⟩
  · rename_i hsafe
    have hplain : ∀ c ∈ utf8Bytes s, IsPlain c := by
      intro c hc
      simp only [List.any_eq_true, not_exists, not_and, Bool.not_eq_true] at hsafe
      exact isPlain_of_safe (hsafe c hc)
    refine ⟨_, rfl, isStringLiteral_plain hplain, ?_⟩
    rw [unquote_plain hplain, decodeUtf8_utf8Bytes, Option.map_some, String.ofList_toList]

/-! ## Lines -/

/-- `protojson` with the options of `writeLoop`: the text of an envelope, if it has one, is
a JSON value on one line.  A nil envelope has a text too. -/
structure EnvelopeText (E : Type) where
  marshal : Option E → Option Bytes
  valueText : ∀ {env : Option E} {text : Bytes}, marshal env = some text → ValueText text
  oneLine : ∀ {env : Option E} {text : Bytes}, marshal env = some text → newline ∉ text

def lineOf (agentBytes envBytes : Bytes) : Bytes :=
  utf8Bytes "\x7b\"_agent\":" ++ agentBytes ++ utf8Bytes ",\"envelope\":" ++ envBytes ++
    [closeBrace, newline]

def lineMembers (agentBytes envBytes : Bytes) : List (String × Bytes) :=
  [("_agent", agentBytes), ("envelope", envBytes)]

private theorem lineOf_eq (agentBytes envBytes : Bytes) :
    lineOf agentBytes envBytes =
      objectText (lineMembers agentBytes envBytes) ++ [newline] := by
  have hagent : utf8Bytes "\x7b\"_agent\":" = openBrace :: (quote "_agent" ++ [colon]) := by
    decide +kernel
  have henvelope : utf8Bytes ",\"envelope\":" = comma :: (quote "envelope" ++ [colon]) := by
    decide +kernel
  simp [lineOf, lineMembers, objectText, fieldsText, fieldText, hagent, henvelope]

/-- What a reader finds on the line of an envelope. -/
structure IsLineOf (pt : EnvelopeText E) (agent : String) (env : Option E) (line : Bytes) :
    Prop where
  object : IsObject line
  decodes : ∃ agentBytes envBytes, members line = some (lineMembers agentBytes envBytes) ∧
    unquote agentBytes = some agent ∧ pt.marshal env = some envBytes
  oneLine : newline ∉ line

section Line

variable {pt : EnvelopeText E} {agent : String} {env : Option E} {agentBytes envBytes : Bytes}

private theorem isLineOf_objectText (hliteral : IsStringLiteral agentBytes)
    (hagent : unquote agentBytes = some agent) (henv : pt.marshal env = some envBytes) :
    IsLineOf pt agent env (objectText (lineMembers agentBytes envBytes)) := by
  have hvalues : ∀ field ∈ lineMembers agentBytes envBytes, ValueText field.2 := by
    intro field hfield
    simp only [lineMembers, List.mem_cons, List.not_mem_nil, or_false] at hfield
    rcases hfield with rfl | rfl
    · exact hliteral.valueText
    · exact pt.valueText henv
  have hne : lineMembers agentBytes envBytes ≠ [] := List.cons_ne_nil _ _
  refine ⟨isObject_objectText hne hvalues,
    ⟨agentBytes, envBytes, members_objectText hne hvalues, hagent, henv⟩, ?_⟩
  have hkeys : newline ∉ quote "_agent" ∧ newline ∉ quote "envelope" :=
    ⟨(isStringLiteral_quote _).newline_not_mem, (isStringLiteral_quote _).newline_not_mem⟩
  have hdelimiters : newline ≠ openBrace ∧ newline ≠ colon ∧ newline ≠ comma ∧
      newline ≠ closeBrace := by
    decide
  simp [objectText, lineMembers, fieldsText, fieldText, hkeys, hdelimiters,
    hliteral.newline_not_mem, pt.oneLine henv]

end Line

/-! ## The output -/

structure Output where
  out : Bytes
  written : Nat
  errors : Nat

structure LineCall (E : Type) extends EmitCall E where
  write : Option Nat

def Output.writeLine (pt : EnvelopeText E) (a : Output) (call : LineCall E) : Output :=
  match pt.marshal call.envelope with
  | none => { a with errors := a.errors + 1 }
  | some envBytes =>
      match marshalJSONString call.agent with
      | none => { a with errors := a.errors + 1 }
      | some agentBytes =>
          let line := lineOf agentBytes envBytes
          match call.write with
          | some taken => { a with out := a.out ++ line.take taken, errors := a.errors + 1 }
          | none => { a with out := a.out ++ line, written := a.written + 1 }

structure Emitter (E : Type) where
  writer : Writer E
  output : Output

def Emitter.new (writer : Writer E) : Emitter E := ⟨writer, ⟨[], 0, 0⟩⟩

def Emitter.emitEnvelope (pj : ProtoJson E) (pt : EnvelopeText E) (a : Emitter E)
    (call : LineCall E) : Emission × Emitter E :=
  let assigned := a.writer.assignSeq pj call.toEmitCall
  (assigned.1, ⟨assigned.2, a.output.writeLine pt call⟩)

def Emitter.emitLines (pj : ProtoJson E) (pt : EnvelopeText E) (a : Emitter E)
    (calls : List (LineCall E)) : Emitter E :=
  calls.foldl (fun a call => (a.emitEnvelope pj pt call).2) a

def LineCall.reaches (pt : EnvelopeText E) (call : LineCall E) : Bool :=
  (pt.marshal call.envelope).isSome && call.write.isNone

section Output

variable {pt : EnvelopeText E} {call : LineCall E}

private theorem writeLine_of_reaches (a : Output) (h : call.reaches pt = true) :
    ∃ line, IsLineOf pt call.agent call.envelope line ∧
      a.writeLine pt call =
        { a with out := a.out ++ (line ++ [newline]), written := a.written + 1 } := by
  rw [LineCall.reaches, Bool.and_eq_true, Option.isSome_iff_exists, Option.isNone_iff_eq_none] at h
  obtain ⟨⟨envBytes, henv⟩, hwrite⟩ := h
  obtain ⟨agentBytes, hagent, hliteral, hdecodes⟩ := exists_marshalJSONString call.agent
  refine ⟨_, isLineOf_objectText hliteral hdecodes henv, ?_⟩
  simp only [Output.writeLine, henv, hagent, hwrite, lineOf_eq]

private theorem writeLine_of_not_reaches (a : Output) (hwrite : ∀ taken ∈ call.write, taken = 0)
    (h : call.reaches pt = false) :
    a.writeLine pt call = { a with errors := a.errors + 1 } := by
  unfold Output.writeLine
  cases henv : pt.marshal call.envelope with
  | none => rfl
  | some envBytes =>
      cases htaken : call.write with
      | none => simp [LineCall.reaches, henv, htaken] at h
      | some taken =>
          rw [hwrite taken htaken]
          cases marshalJSONString call.agent with
          | none => rfl
          | some agentBytes => simp

private theorem emitLines_output (pj : ProtoJson E) (a : Emitter E) {calls : List (LineCall E)}
    (hwrite : ∀ call ∈ calls, ∀ taken ∈ call.write, taken = 0) :
    ∃ texts, List.Forall₂ (fun call => IsLineOf pt call.agent call.envelope)
        (calls.filter (LineCall.reaches pt)) texts ∧
      (a.emitLines pj pt calls).output.out = a.output.out ++ lines texts := by
  induction calls generalizing a with
  | nil => exact ⟨[], .nil, by simp [Emitter.emitLines]⟩
  | cons call calls ih =>
      rw [List.forall_mem_cons] at hwrite
      obtain ⟨texts, htexts, hout⟩ := ih (a.emitEnvelope pj pt call).2 hwrite.2
      have hstep : (a.emitLines pj pt (call :: calls)).output.out =
          (a.output.writeLine pt call).out ++ lines texts := hout
      cases hreaches : call.reaches pt with
      | true =>
          obtain ⟨line, hline, hwritten⟩ := writeLine_of_reaches a.output hreaches
          refine ⟨line :: texts, ?_, ?_⟩
          · rw [List.filter_cons_of_pos hreaches]
            exact .cons hline htexts
          · rw [hstep, hwritten, lines_cons]
            simp
      | false =>
          refine ⟨texts, ?_, ?_⟩
          · rw [List.filter_cons_of_neg (by simp [hreaches])]
            exact htexts
          · rw [hstep, writeLine_of_not_reaches a.output hwrite.1 hreaches]

private theorem newline_not_mem_of_lines {calls : List (LineCall E)} {lines : List Bytes}
    (h : List.Forall₂ (fun call => IsLineOf pt call.agent call.envelope) calls lines) :
    ∀ line ∈ lines, newline ∉ line := by
  induction h with
  | nil => simp
  | cons hline _ ih =>
      rw [List.forall_mem_cons]
      exact ⟨hline.oneLine, ih⟩

end Output

theorem emitted_lines_decode (pj : ProtoJson E) (pt : EnvelopeText E) (writer : Writer E)
    (calls : List (LineCall E)) (hwrite : ∀ call ∈ calls, ∀ taken ∈ call.write, taken = 0) :
    (∃ lines,
      ((Emitter.new writer).emitLines pj pt calls).output.out.splitOn newline = lines ++ [[]] ∧
        List.Forall₂ (fun call => IsLineOf pt call.agent call.envelope)
          (calls.filter (LineCall.reaches pt)) lines) ∧
      ∀ s, ∃ literal, marshalJSONString s = some literal ∧ IsStringLiteral literal ∧
        newline ∉ literal ∧ unquote literal = some s := by
  constructor
  · obtain ⟨lines, hlines, hout⟩ := emitLines_output pj (Emitter.new writer) hwrite
    refine ⟨lines, ?_, hlines⟩
    rw [hout]
    exact splitOn_lines (newline_not_mem_of_lines hlines)
  · intro s
    obtain ⟨literal, hmarshal, hliteral, hdecodes⟩ := exists_marshalJSONString s
    exact ⟨literal, hmarshal, hliteral, hliteral.newline_not_mem, hdecodes⟩

def spacedText (env : Option Bool) : Option Bytes :=
  match env with
  | none => some (utf8Bytes "\x7b\x7d")
  | some valid => if valid then some (utf8Bytes "\x7b\"load\": 1.5e3\x7d") else none

private theorem valueText_of_spacedText {env : Option Bool} {text : Bytes}
    (h : spacedText env = some text) : ValueText text := by
  rcases env with _ | _ | _ <;> cases h
  · exact IsObject.valueText (by decide +kernel)
  · exact IsObject.valueText (by decide +kernel)

private theorem newline_not_mem_spacedText {env : Option Bool} {text : Bytes}
    (h : spacedText env = some text) : newline ∉ text := by
  rcases env with _ | _ | _ <;> cases h
  · decide +kernel
  · decide +kernel

def spacedMessage : EnvelopeText Bool :=
  ⟨spacedText, valueText_of_spacedText, newline_not_mem_spacedText⟩

def oddNames : List (LineCall Bool) :=
  [⟨⟨"node-a", some true, ⟨1, 1, 1⟩, .none⟩, none⟩,
    ⟨⟨"a\"b\\c\nd\x00\x7f", none, ⟨2, 2, 2⟩, .none⟩, none⟩,
    ⟨⟨"node-b", some false, ⟨3, 3, 3⟩, .none⟩, none⟩,
    ⟨⟨"node-c", some true, ⟨4, 4, 4⟩, .none⟩, some 0⟩,
    ⟨⟨"노드<é>", some true, ⟨5, 5, 5⟩, .none⟩, none⟩]

theorem emitted_lines_oddNames :
    (∀ call ∈ oddNames, ∀ taken ∈ call.write, taken = 0) ∧
      ∃ lines, ((Emitter.new (Writer.new (World.empty 0))).emitLines partialMessage spacedMessage
          oddNames).output.out.splitOn newline = lines ++ [[]] ∧ lines.length = 3 := by
  have hwrite : ∀ call ∈ oddNames, ∀ taken ∈ call.write, taken = 0 := by decide +kernel
  obtain ⟨⟨lines, hsplit, hlines⟩, -⟩ := emitted_lines_decode partialMessage spacedMessage
    (Writer.new (World.empty 0)) oddNames hwrite
  have hlength : (oddNames.filter (LineCall.reaches spacedMessage)).length = 3 := by
    decide +kernel
  exact ⟨hwrite, lines, hsplit, hlines.length_eq ▸ hlength⟩

end KloudlensAggregator.Aggregator
