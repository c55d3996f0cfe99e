/-
# Blocks with fields at fixed offsets

A block is a list of a known length; `splice` writes a field at an offset and
`slice` reads one. A field that was written is read back (`slice_splice`), and
a write leaves every field alone that it does not overlap
(`slice_splice_before`, `slice_splice_after`); so each of a list of fields that
lie apart is read back (`slice_field`). `digits` are the digits of a
number in a field of a fixed width, `ofDigits_digits` reads them back.
-/
import Mathlib.Tactic

namespace Block

open List

variable {α : Type*}

/-! ### Fields -/

def slice (l : List α) (offset width : ℕ) : List α := (l.drop offset).take width

/-- The block with `field` written at `offset`. -/
def splice (l : List α) (offset : ℕ) (field : List α) : List α :=
  l.take offset ++ field ++ l.drop (offset + field.length)

variable {l field : List α} {offset : ℕ}

theorem splice_length (h : offset + field.length ≤ l.length) :
    (splice l offset field).length = l.length := by
  simp only [splice, length_append, length_take, length_drop]
  omega

theorem slice_splice (h : offset ≤ l.length) :
    slice (splice l offset field) offset field.length = field := by
  have htake : (l.take offset).length = offset := length_take_of_le h
  rw [slice, splice, append_assoc, drop_append_of_le_length htake.ge, drop_eq_nil_of_le htake.le,
    nil_append, take_left]

theorem slice_splice_before {o w : ℕ} (hl : offset ≤ l.length) (h : o + w ≤ offset) :
    slice (splice l offset field) o w = slice l o w := by
  have htake : (l.take offset).length = offset := length_take_of_le hl
  rw [slice, splice, append_assoc, drop_append_of_le_length (by omega),
    take_append_of_le_length (by rw [length_drop]; omega), slice, drop_take, take_take,
    Nat.min_eq_left (by omega)]

theorem slice_splice_after {o w : ℕ} (hl : offset + field.length ≤ l.length)
    (h : offset + field.length ≤ o) : slice (splice l offset field) o w = slice l o w := by
  have hlength : (l.take offset ++ field).length = offset + field.length := by
    rw [length_append, length_take_of_le (by omega)]
  rw [slice, splice, drop_append, drop_eq_nil_of_le (by omega), nil_append, hlength,
    drop_drop, slice]
  congr 2
  omega

/-- The fields written one after the other, each with its offset. -/
def writeFields (l : List α) (fields : List (ℕ × List α)) :
    List α := fields.foldl (fun l f => splice l f.1 f.2) l

theorem writeFields_append (l : List α) (fs gs : List (ℕ × List α)) :
    writeFields l (fs ++ gs) = writeFields (writeFields l fs) gs :=
  foldl_append

theorem writeFields_length : ∀ {fs : List (ℕ × List α)} {l : List α},
    (∀ f ∈ fs, f.1 + f.2.length ≤ l.length) → (writeFields l fs).length = l.length
  | [], _, _ => rfl
  | f :: fs, l, h => by
    have hfirst := splice_length (h f mem_cons_self)
    have hrest : ∀ g ∈ fs, g.1 + g.2.length ≤ (splice l f.1 f.2).length := by
      intro g hg
      rw [hfirst]
      exact h g (mem_cons_of_mem _ hg)
    show (writeFields (splice l f.1 f.2) fs).length = _
    rw [writeFields_length hrest, hfirst]

/-- Fields leave alone what they do not overlap. -/
theorem slice_writeFields {o w : ℕ} : ∀ {fs : List (ℕ × List α)} {l : List α},
    (∀ f ∈ fs, f.1 + f.2.length ≤ l.length) → (∀ f ∈ fs, o + w ≤ f.1 ∨ f.1 + f.2.length ≤ o) →
    slice (writeFields l fs) o w = slice l o w
  | [], _, _, _ => rfl
  | f :: fs, l, hin, hapart => by
    have hfit := hin f mem_cons_self
    have hrest : ∀ g ∈ fs, g.1 + g.2.length ≤ (splice l f.1 f.2).length := by
      intro g hg
      rw [splice_length hfit]
      exact hin g (mem_cons_of_mem _ hg)
    show slice (writeFields (splice l f.1 f.2) fs) o w = _
    rw [slice_writeFields hrest fun g hg => hapart g (mem_cons_of_mem _ hg)]
    rcases hapart f mem_cons_self with hbefore | hafter
    · exact slice_splice_before (by omega) hbefore
    · exact slice_splice_after hfit hafter

/-- A field that no later one overlaps is read back. -/
theorem slice_field {fs gs : List (ℕ × List α)} {f : ℕ × List α}
    (hin : ∀ g ∈ fs ++ f :: gs, g.1 + g.2.length ≤ l.length)
    (hapart : ∀ g ∈ gs, f.1 + f.2.length ≤ g.1 ∨ g.1 + g.2.length ≤ f.1) :
    slice (writeFields l (fs ++ f :: gs)) f.1 f.2.length = f.2 := by
  have hfs : (writeFields l fs).length = l.length :=
    writeFields_length fun g hg => hin g (mem_append_left _ hg)
  have hf : f.1 + f.2.length ≤ l.length := hin f (mem_append_right _ mem_cons_self)
  have hfit : f.1 + f.2.length ≤ (writeFields l fs).length := hfs ▸ hf
  rw [writeFields_append]
  show slice (writeFields (splice (writeFields l fs) f.1 f.2) gs) f.1 f.2.length = f.2
  rw [slice_writeFields _ hapart]
  · exact slice_splice (by omega)
  · intro g hg
    rw [splice_length hfit, hfs]
    exact hin g (mem_append_right _ (mem_cons_of_mem _ hg))

/-! ### Numbers -/

/-- The digits of `n` in the given base, most significant first. -/
def digits (base : ℕ) : ℕ → ℕ → List ℕ
  | 0, _ => []
  | width + 1, n => digits base width (n / base) ++ [n % base]

theorem digits_length (base : ℕ) : ∀ width n, (digits base width n).length = width
  | 0, _ => rfl
  | width + 1, n => by simp [digits, digits_length base width]

theorem digits_lt {base : ℕ} (hbase : 0 < base) :
    ∀ {width n d : ℕ}, d ∈ digits base width n → d < base
  | 0, _, _, h => nomatch h
  | width + 1, n, d, h => by
    rcases mem_append.mp h with h | h
    · exact digits_lt hbase h
    · rw [mem_singleton.mp h]
      exact Nat.mod_lt _ hbase

/-- The number with the given digits. -/
def ofDigits (base : ℕ) (ds : List ℕ) : ℕ := ds.foldl (fun value d => value * base + d) 0

theorem ofDigits_snoc (base : ℕ) (ds : List ℕ) (d : ℕ) :
    ofDigits base (ds ++ [d]) = ofDigits base ds * base + d := by
  simp [ofDigits]

theorem ofDigits_digits {base : ℕ} : ∀ {width n : ℕ}, n < base ^ width →
    ofDigits base (digits base width n) = n
  | 0, n, h => by
    have hzero : n = 0 := by simpa using h
    rw [hzero]
    rfl
  | width + 1, n, h => by
    have hquotient : n / base < base ^ width := Nat.div_lt_of_lt_mul (by rwa [← Nat.pow_succ'])
    rw [digits, ofDigits_snoc, ofDigits_digits hquotient, Nat.mul_comm]
    exact Nat.div_add_mod n base

end Block
