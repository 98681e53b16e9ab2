import KloudlensAggregator.Foundation.JsonText

/-!
# Records of the envelope WAL

One line of a segment file is the JSON object of a `DiskEntry` followed by a
newline.  The envelope is kept as the raw text that `protojson` produced, so
`protojson` enters as a parameter with the two facts the WAL relies on.
-/

namespace KloudlensAggregator.Envwal

open KloudlensAggregator.Foundation
open KloudlensAggregator.Foundation.Json

structure DiskEntry where
  seq : Nat
  agent : String
  envelope : Bytes
  ts : Int
  deriving DecidableEq, Repr

structure Entry (E : Type) where
  seq : Nat
  agent : String
  envelope : E
  ts : Int
  deriving DecidableEq, Repr

/--
`protojson.Marshal` and `protojson.Unmarshal` for the envelope message.  The
text is the one that stands in the record, compacted by `json.Marshal`; a
message is a JSON object.
-/
structure ProtoJson (E : Type) where
  marshal : E → Option Bytes
  unmarshal : Bytes → Option E
  marshal_isObject : ∀ {env : E} {text : Bytes},
    marshal env = some text → IsObject text
  unmarshal_marshal : ∀ {env : E} {text : Bytes},
    marshal env = some text → unmarshal text = some env

def emptyMessage : ProtoJson Unit where
  marshal := fun _ => some [openBrace, closeBrace]
  unmarshal := fun text => if text = [openBrace, closeBrace] then some () else none
  marshal_isObject := by
    rintro env text ⟨⟩
    decide
  unmarshal_marshal := by
    rintro env text ⟨⟩
    rfl

/-- A message that may hold a string without a text, such as invalid UTF-8. -/
def partialMessage : ProtoJson Bool where
  marshal := fun valid => if valid then some [openBrace, closeBrace] else none
  unmarshal := fun text => if text = [openBrace, closeBrace] then some true else none
  marshal_isObject := by
    rintro (_ | _) text ⟨⟩
    decide
  unmarshal_marshal := by
    rintro (_ | _) text ⟨⟩
    rfl

def entryFields (d : DiskEntry) : List (String × Bytes) :=
  [("seq", natText d.seq), ("agent", quote d.agent),
    ("envelope", d.envelope), ("ts_ns", intText d.ts)]

def marshalEntry (d : DiskEntry) : Bytes := objectText (entryFields d)

def nullText : Bytes := [0x6E, 0x75, 0x6C, 0x6C]

def decodeField {α : Type} (fields : List (String × Bytes)) (name : String)
    (zero : α) (decode : Bytes → Option α) : Option α :=
  match member fields name with
  | none => some zero
  | some text => if text = nullText then some zero else decode text

def unmarshalEntry (text : Bytes) : Option DiskEntry := do
  let fields ← members text
  let seq ← decodeField fields "seq" 0 parseNat
  let agent ← decodeField fields "agent" "" unquote
  let ts ← decodeField fields "ts_ns" 0 parseInt
  some ⟨seq, agent, (member fields "envelope").getD [], ts⟩

theorem entryFields_valueText {d : DiskEntry} (h : IsObject d.envelope) :
    ∀ field ∈ entryFields d, ValueText field.2 := by
  intro field hfield
  simp only [entryFields, List.mem_cons, List.not_mem_nil, or_false] at hfield
  rcases hfield with rfl | rfl | rfl | rfl
  · exact valueText_natText d.seq
  · exact valueText_quote d.agent
  · exact h.valueText
  · exact valueText_intText d.ts

theorem isObject_marshalEntry {d : DiskEntry} (h : IsObject d.envelope) :
    IsObject (marshalEntry d) :=
  isObject_objectText (by simp [entryFields]) (entryFields_valueText h)

theorem keyedObject_marshalEntry {d : DiskEntry} (h : IsObject d.envelope) :
    KeyedObject (marshalEntry d) := by
  have hkey : quote "seq" = [quotationMark, 0x73, 0x65, 0x71, quotationMark] := by
    decide
  have hsplit : marshalEntry d = openBrace ::
      (quote "seq" ++ (colon :: natText d.seq ++
        comma :: fieldsText (entryFields d).tail)) := by
    simp [marshalEntry, objectText, entryFields, fieldsText, fieldText]
  rw [hkey] at hsplit
  exact ⟨isObject_marshalEntry h, 0x73, _, hsplit, by decide⟩

private theorem decodeField_of_member {α : Type} {fields : List (String × Bytes)}
    {name : String} {text : Bytes} {zero value : α} {decode : Bytes → Option α}
    (hmember : member fields name = some text) (hvalue : decode text = some value)
    (hnull : decode nullText = none) :
    decodeField fields name zero decode = some value := by
  have htext : text ≠ nullText := by
    rintro rfl
    rw [hnull] at hvalue
    cases hvalue
  simp [decodeField, hmember, htext, hvalue]

theorem unmarshalEntry_marshalEntry {d : DiskEntry} (h : IsObject d.envelope) :
    unmarshalEntry (marshalEntry d) = some d := by
  have hmembers : members (marshalEntry d) = some (entryFields d) :=
    members_objectText (by simp [entryFields]) (entryFields_valueText h)
  have hseq : decodeField (entryFields d) "seq" 0 parseNat = some d.seq :=
    decodeField_of_member rfl (parseNat_natText d.seq) rfl
  have hagent : decodeField (entryFields d) "agent" "" unquote = some d.agent :=
    decodeField_of_member rfl (unquote_quote d.agent) rfl
  have hts : decodeField (entryFields d) "ts_ns" 0 parseInt = some d.ts :=
    decodeField_of_member rfl (parseInt_intText d.ts) rfl
  have henvelope : member (entryFields d) "envelope" = some d.envelope := rfl
  simp [unmarshalEntry, hmembers, hseq, hagent, hts, henvelope]

end KloudlensAggregator.Envwal
