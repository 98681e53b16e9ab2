import Mathlib.Tactic

/-!
# UTF-8 by structural recursion

`String.utf8EncodeChar` writes a character; `decodeUtf8` reads a byte list back
into characters and, unlike the array decoder of the core library, evaluates in
the kernel.
-/

namespace KloudlensAggregator.Foundation

abbrev Bytes := List UInt8

/-- The character of a code point; surrogates are none. -/
def charOfCode (code : Nat) : Option Char :=
  if code.isValidChar then some (Char.ofNat code) else none

theorem charOfCode_toNat (c : Char) : charOfCode c.toNat = some c := by
  have hvalid : c.toNat.isValidChar := c.valid
  simp [charOfCode, hvalid]

def decodeUtf8 : Bytes → Option (List Char)
  | [] => some []
  | a :: text =>
      if a.toNat < 0x80 then
        (charOfCode a.toNat).bind fun c => (decodeUtf8 text).map (c :: ·)
      else match text with
        | [] => none
        | b :: text =>
            if a.toNat < 0xE0 then
              (charOfCode ((a.toNat - 0xC0) * 64 + (b.toNat - 0x80))).bind fun c =>
                (decodeUtf8 text).map (c :: ·)
            else match text with
              | [] => none
              | d :: text =>
                  if a.toNat < 0xF0 then
                    (charOfCode ((a.toNat - 0xE0) * 4096 + (b.toNat - 0x80) * 64 +
                      (d.toNat - 0x80))).bind fun c =>
                      (decodeUtf8 text).map (c :: ·)
                  else match text with
                    | [] => none
                    | e :: text =>
                        (charOfCode ((a.toNat - 0xF0) * 262144 + (b.toNat - 0x80) * 4096 +
                          (d.toNat - 0x80) * 64 + (e.toNat - 0x80))).bind fun c =>
                          (decodeUtf8 text).map (c :: ·)

def utf8Codes (v : Nat) : List Nat :=
  if v ≤ 0x7f then [v]
  else if v ≤ 0x7ff then [v / 64 % 0x20 + 0xc0, v % 0x40 + 0x80]
  else if v ≤ 0xffff then
    [v / 4096 % 0x10 + 0xe0, v / 64 % 0x40 + 0x80, v % 0x40 + 0x80]
  else
    [v / 262144 % 0x08 + 0xf0, v / 4096 % 0x40 + 0x80, v / 64 % 0x40 + 0x80,
      v % 0x40 + 0x80]

theorem toNat_ofNat_of_lt {n : Nat} (h : n < 256) : (UInt8.ofNat n).toNat = n := by
  simp [UInt8.toNat_ofNat']; omega

theorem utf8EncodeChar_eq (c : Char) :
    String.utf8EncodeChar c = (utf8Codes c.toNat).map UInt8.ofNat := by
  unfold String.utf8EncodeChar utf8Codes
  simp only [Char.toNat]
  split_ifs <;> simp

theorem decodeUtf8_utf8EncodeChar (c : Char) (text : Bytes) :
    decodeUtf8 (String.utf8EncodeChar c ++ text) =
      (decodeUtf8 text).map (c :: ·) := by
  have hvalid := charOfCode_toNat c
  have hlt : c.toNat < 0x110000 := by
    rcases c.valid with h | h <;> simp only [Char.toNat] <;> omega
  rw [utf8EncodeChar_eq]
  generalize c.toNat = v at hvalid hlt
  have byte : ∀ n, n < 256 → (UInt8.ofNat n).toNat = n := fun n h =>
    toNat_ofNat_of_lt h
  unfold utf8Codes
  split_ifs with h₁ h₂ h₃
  all_goals
    simp only [List.map_cons, List.map_nil, List.cons_append, List.nil_append]
    rw [decodeUtf8.eq_def]
  · have hcode := byte v (by omega)
    have hfirst : v < 0x80 := by omega
    simp [hcode, hfirst, hvalid]
  · have hcode : (v / 64 % 0x20 + 0xc0 - 0xC0) * 64 + (v % 0x40 + 0x80 - 0x80) = v := by
      omega
    have hfirst : ¬ v / 64 % 0x20 + 0xc0 < 0x80 := by omega
    have hsecond : v / 64 % 0x20 + 0xc0 < 0xE0 := by omega
    simp only [byte (v / 64 % 0x20 + 0xc0) (by omega), byte (v % 0x40 + 0x80) (by omega),
      hfirst, hsecond, hcode, hvalid, if_true, if_false, Option.bind_some]
  · have hcode : (v / 4096 % 0x10 + 0xe0 - 0xE0) * 4096 +
        (v / 64 % 0x40 + 0x80 - 0x80) * 64 + (v % 0x40 + 0x80 - 0x80) = v := by
      omega
    have hfirst : ¬ v / 4096 % 0x10 + 0xe0 < 0x80 := by omega
    have hsecond : ¬ v / 4096 % 0x10 + 0xe0 < 0xE0 := by omega
    have hthird : v / 4096 % 0x10 + 0xe0 < 0xF0 := by omega
    simp only [byte (v / 4096 % 0x10 + 0xe0) (by omega),
      byte (v / 64 % 0x40 + 0x80) (by omega), byte (v % 0x40 + 0x80) (by omega),
      hfirst, hsecond, hthird, hcode, hvalid, if_true, if_false, Option.bind_some]
  · have hcode : (v / 262144 % 0x08 + 0xf0 - 0xF0) * 262144 +
        (v / 4096 % 0x40 + 0x80 - 0x80) * 4096 +
        (v / 64 % 0x40 + 0x80 - 0x80) * 64 + (v % 0x40 + 0x80 - 0x80) = v := by
      omega
    have hfirst : ¬ v / 262144 % 0x08 + 0xf0 < 0x80 := by omega
    have hsecond : ¬ v / 262144 % 0x08 + 0xf0 < 0xE0 := by omega
    have hthird : ¬ v / 262144 % 0x08 + 0xf0 < 0xF0 := by omega
    simp only [byte (v / 262144 % 0x08 + 0xf0) (by omega),
      byte (v / 4096 % 0x40 + 0x80) (by omega), byte (v / 64 % 0x40 + 0x80) (by omega),
      byte (v % 0x40 + 0x80) (by omega),
      hfirst, hsecond, hthird, hcode, hvalid, if_false, Option.bind_some]

theorem decodeUtf8_flatMap (chars : List Char) :
    decodeUtf8 (chars.flatMap String.utf8EncodeChar) = some chars := by
  induction chars with
  | nil => rfl
  | cons c chars ih =>
      rw [List.flatMap_cons, decodeUtf8_utf8EncodeChar, ih]
      rfl

def utf8Bytes (s : String) : Bytes := s.toList.flatMap String.utf8EncodeChar

theorem decodeUtf8_utf8Bytes (s : String) : decodeUtf8 (utf8Bytes s) = some s.toList :=
  decodeUtf8_flatMap s.toList

theorem utf8Codes_plain {v : Nat} (h : 0x80 ≤ v) :
    ∀ n ∈ utf8Codes v, 0x80 ≤ n ∧ n < 256 := by
  unfold utf8Codes
  intro n hn
  split_ifs at hn with h₁ h₂ h₃
  · omega
  all_goals
    simp only [List.mem_cons, List.not_mem_nil, or_false] at hn
    omega
end KloudlensAggregator.Foundation
