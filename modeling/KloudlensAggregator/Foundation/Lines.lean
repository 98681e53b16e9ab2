import KloudlensAggregator.Foundation.JsonDecoder

/-!
# Reading lines

A text of lines, each with a newline behind it, is read back in two ways: split
at every newline, or scanned as a stream that may break off.
-/

namespace KloudlensAggregator.Foundation

open Json (newline lines)

theorem splitOn_lines {texts : List Bytes} (h : ∀ text ∈ texts, newline ∉ text) :
    (lines texts).splitOn newline = texts ++ [[]] := by
  induction texts with
  | nil => rfl
  | cons text texts ih =>
      rw [List.forall_mem_cons] at h
      have htext : ∀ c ∈ text, (c == newline) = false := by
        intro c hc
        rw [beq_eq_false_iff_ne]
        rintro rfl
        exact h.1 hc
      rw [Json.lines_cons, List.splitOn_eq_splitOnP,
        List.splitOnP_append_cons_of_forall_mem htext newline BEq.rfl,
        ← List.splitOn_eq_splitOnP, ih h.2, List.cons_append]

/-! ## The scanner of package bufio -/

def tooLong : Bytes := utf8Bytes "bufio.Scanner: token too long"

def dropCR (line : Bytes) : Bytes :=
  if line.getLast? = some 0x0D then line.dropLast else line

/-- What is left to scan behind the line read so far.  A stream that breaks off in a
line still yields that line; a line that fills the buffer ends the scan. -/
def scanFrom (maxTokenSize : Nat) (err : Option Bytes) (line : Bytes) :
    Bytes → List Bytes × Option Bytes
  | [] => (if line = [] then [] else [dropCR line], err)
  | c :: data =>
      if c = newline then
        let scanned := scanFrom maxTokenSize err [] data
        (dropCR line :: scanned.1, scanned.2)
      else if maxTokenSize ≤ line.length + 1 then ([], some tooLong)
      else scanFrom maxTokenSize err (line ++ [c]) data

def scanLines (maxTokenSize : Nat) (data : Bytes) (err : Option Bytes) :
    List Bytes × Option Bytes :=
  scanFrom maxTokenSize err [] data

theorem scanFrom_line {maxTokenSize : Nat} (err : Option Bytes) {seen line : Bytes}
    (hnewline : newline ∉ line) (hshort : (seen ++ line).length < maxTokenSize) (data : Bytes) :
    scanFrom maxTokenSize err seen (line ++ newline :: data) =
      (dropCR (seen ++ line) :: (scanLines maxTokenSize data err).1,
        (scanLines maxTokenSize data err).2) := by
  induction line generalizing seen with
  | nil => simp [scanFrom, scanLines]
  | cons c line ih =>
      rw [List.mem_cons, not_or] at hnewline
      have hroom : ¬ maxTokenSize ≤ seen.length + 1 := by
        simp only [List.length_append, List.length_cons] at hshort
        omega
      have hnext : (seen ++ [c] ++ line).length < maxTokenSize := by simpa using hshort
      rw [List.cons_append, scanFrom, if_neg (Ne.symm hnewline.1), if_neg hroom,
        ih hnewline.2 hnext, List.append_assoc, List.singleton_append]

theorem scanLines_lines {maxTokenSize : Nat} (err : Option Bytes) {texts : List Bytes}
    (hnewline : ∀ text ∈ texts, newline ∉ text)
    (hshort : ∀ text ∈ texts, text.length < maxTokenSize)
    (hCR : ∀ text ∈ texts, dropCR text = text) :
    scanLines maxTokenSize (lines texts) err = (texts, err) := by
  induction texts with
  | nil => rfl
  | cons text texts ih =>
      rw [List.forall_mem_cons] at hnewline hshort hCR
      rw [Json.lines_cons, scanLines, scanFrom_line err hnewline.1 hshort.1, List.nil_append,
        hCR.1, ih hnewline.2 hshort.2 hCR.2]

end KloudlensAggregator.Foundation
