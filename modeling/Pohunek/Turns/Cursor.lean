/-
# The text of a turn cursor

`TurnEvents::cursor` writes a position of the turn-event journal as
`t1.<seq>.<issued>.<epoch>`, and `place` reads it back: `splitn(4, '.')`, two
numbers of `u64`, and the epoch of the daemon. Texts are lists of characters.
A cursor a daemon issued is read back by it as it was (`read_cursor`).
-/
import Mathlib.Tactic

namespace Pohunek.Turns

abbrev Text := List Char

/-- `CURSOR_TAG`. -/
def cursorTag : Text := ['t', '1']

/-- `CURSOR_SEPARATOR`. -/
def cursorSeparator : Char := '.'

/-- `u64::MAX`. -/
def u64Max : ℕ := 2 ^ 64 - 1

structure CursorPosition where
  seq : ℕ
  issuedNanos : ℕ
  deriving DecidableEq

/-- `format!("{seq}")`. -/
def decimal (n : ℕ) : Text := Nat.toDigits 10 n

/-- The digits after a plus sign, if there is one. -/
def afterSign : Text → Text
  | '+' :: rest => rest
  | text => text

/-- `str::parse::<u64>`. -/
def parseU64 (text : Text) : Option ℕ :=
  let digits := afterSign text
  if digits ≠ [] ∧ digits.all Char.isDigit then
    let value := Nat.ofDigitChars 10 digits 0
    if value ≤ u64Max then some value else none
  else none

/-- `str::splitn`: the last field holds the rest. -/
def splitn (separator : Char) : ℕ → Text → List Text
  | 0, _ => []
  | 1, text => [text]
  | n + 2, text =>
    match text.span (· ≠ separator) with
    | (field, _ :: rest) => field :: splitn separator (n + 1) rest
    | (field, []) => [field]

/-- `TurnEvents::cursor`, with the clock it reads. -/
def cursorText (epoch : Text) (seq issued : ℕ) : Text :=
  cursorTag ++ cursorSeparator ::
    (decimal seq ++ cursorSeparator :: (decimal issued ++ cursorSeparator :: epoch))

/-- The fields of a cursor of this daemon: what `place` reads before it looks
at the journal. -/
def readCursor (epoch : Text) (cursor : Text) : Option CursorPosition :=
  match splitn cursorSeparator 4 cursor with
  | [tag, seq, issued, cursorEpoch] =>
    if tag = cursorTag then
      (parseU64 seq).bind fun seq => (parseU64 issued).bind fun issuedNanos =>
        if cursorEpoch = epoch then some ⟨seq, issuedNanos⟩ else none
    else none
  | _ => none

/-! ### A cursor is read as it was written -/

theorem splitn_field {separator : Char} {field rest : Text} (h : separator ∉ field) (n : ℕ) :
    splitn separator (n + 2) (field ++ separator :: rest) = field :: splitn separator
    (n + 1) rest := by
  have hspan : (field ++ separator :: rest).span (· ≠ separator) = (field, separator :: rest) := by
    rw [List.span_eq_takeWhile_dropWhile]
    have hall : ∀ c ∈ field, decide (c ≠ separator) = true := by
      intro c hc
      simp only [decide_eq_true_eq]
      rintro rfl
      exact h hc
    rw [List.takeWhile_append_of_pos hall, List.dropWhile_append_of_pos hall]
    simp
  rw [splitn, hspan]

theorem isDigit_decimal {n : ℕ} {c : Char} (h : c ∈ decimal n) : c.isDigit :=
  Nat.isDigit_of_mem_toDigits (by omega) (by omega) h

theorem separator_not_mem_decimal (n : ℕ) : cursorSeparator ∉ decimal n := fun h =>
  absurd (isDigit_decimal h) (by decide)

theorem parseU64_decimal {n : ℕ} (h : n ≤ u64Max) : parseU64 (decimal n) = some n := by
  have hne : decimal n ≠ [] := Nat.toDigits_ne_nil
  have hdigits : afterSign (decimal n) = decimal n := by
    unfold afterSign
    split
    · rename_i rest htext
      have hplus : '+' ∈ decimal n := htext ▸ List.mem_cons_self
      exact absurd (isDigit_decimal hplus) (by decide)
    · rfl
  have hall : (decimal n).all Char.isDigit = true :=
    List.all_eq_true.mpr fun c hc => isDigit_decimal hc
  have hvalue : Nat.ofDigitChars 10 (decimal n) 0 = n := Nat.ofDigitChars_ten_toDigits
  rw [parseU64, hdigits]
  simp [hne, hall, hvalue, h]

/-- **A daemon reads back the cursors it issued.** -/
theorem read_cursor (epoch : Text) {seq issued : ℕ} (hseq : seq ≤ u64Max)
    (hissued : issued ≤ u64Max) :
    readCursor epoch (cursorText epoch seq issued) = some ⟨seq, issued⟩ := by
  have htag : cursorSeparator ∉ cursorTag := by decide
  rw [readCursor, cursorText, splitn_field htag, splitn_field (separator_not_mem_decimal seq),
    splitn_field (separator_not_mem_decimal issued), splitn]
  simp [parseU64_decimal hseq, parseU64_decimal hissued]

end Pohunek.Turns
