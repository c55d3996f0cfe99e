/-
# The output ring

`OutputRing` of `crates/session-worker/src/output.rs`: the last `limit`
bytes of the PTY output, with the runtime offset of the first retained byte
and of the next one. Offsets are `u64` in the source; they are naturals here
with the source's own overflow checks (`checked_add`, `saturating_add`)
against `u64Max`. `usize` is 64 bits wide, so no conversion between the two
fails.

`Retains r s` says that `r` is the ring after the bytes `s` were pushed: it
holds the tail of `s`. `push` keeps it (`push_spec`) and what the ring reads
back is a slice of `s` (`chunk_spec`, `bytesFromLimited_spec`).
-/
import Mathlib.Tactic

namespace Pohunek.Output

open List

/-- The largest `u64`. -/
def u64Max : ℕ := 2 ^ 64 - 1

/-- `u64::saturating_add`. -/
def satAdd (a b : ℕ) : ℕ := min (a + b) u64Max

theorem satAdd_eq {a b : ℕ} (h : a + b ≤ u64Max) : satAdd a b = a + b := min_eq_left h

/-- Output-ring failure. -/
inductive RingError
  | invalidLimit (field : String)
  | offsetOverflow
  | offsetAhead (requested next : ℕ)
  | closed
  deriving DecidableEq

/-- Contiguous PTY output with its runtime offset. -/
structure OutputChunk where
  offset : ℕ
  bytes : List UInt8
  deriving DecidableEq

/-- `OutputChunk::end`. -/
def OutputChunk.endOffset (c : OutputChunk) : ℕ := satAdd c.offset c.bytes.length

structure OutputRing where
  bytes : List UInt8
  limit : ℕ
  startOffset : ℕ
  nextOffset : ℕ
  deriving DecidableEq

namespace OutputRing

def new (limit : ℕ) : OutputRing := ⟨[], limit, 0, 0⟩

/-- The eviction loop of `push`: the oldest byte goes while more than `limit`
are held. The flag is false where the source returns `OffsetOverflow` out of
the loop, with the byte already popped. -/
def evict (limit : ℕ) : List UInt8 → ℕ → List UInt8 × ℕ × Bool
  | [], start => ([], start, true)
  | b :: bs, start =>
    if limit < (b :: bs).length then
      if start + 1 ≤ u64Max then evict limit bs (start + 1) else (bs, start, false)
    else (b :: bs, start, true)

def push (r : OutputRing) (bytes : List UInt8) : OutputRing × Except RingError OutputChunk :=
  if r.nextOffset + bytes.length ≤ u64Max then
    let chunk : OutputChunk := ⟨r.nextOffset, bytes⟩
    let (kept, start, ok) := evict r.limit (r.bytes ++ bytes) r.startOffset
    (⟨kept, r.limit, start, r.nextOffset + bytes.length⟩,
      if ok then .ok chunk else .error .offsetOverflow)
  else (r, .error .offsetOverflow)

def bytesFromLimited (r : OutputRing) (offset limit : ℕ) : List UInt8 :=
  (r.bytes.drop (offset - r.startOffset)).take limit

def chunk (r : OutputRing) (offset stop limit : ℕ) : Option OutputChunk :=
  if offset < r.startOffset ∨ stop ≤ offset ∨ r.nextOffset < stop then none
  else some ⟨offset, (r.bytes.drop (offset - r.startOffset)).take (min (stop - offset) limit)⟩

/-! ### What the ring holds -/

/-- The ring after `s` was pushed. -/
structure Retains (r : OutputRing) (s : List UInt8) : Prop where
  next : r.nextOffset = s.length
  fits : s.length ≤ u64Max
  start : r.startOffset ≤ s.length
  bytes : r.bytes = s.drop r.startOffset
  bound : r.bytes.length ≤ r.limit

theorem new_retains (limit : ℕ) : Retains (new limit) [] :=
  ⟨rfl, Nat.zero_le _, le_rfl, rfl, Nat.zero_le _⟩

variable {r : OutputRing} {s : List UInt8}

theorem Retains.length (h : Retains r s) :
    r.startOffset + r.bytes.length = r.nextOffset := by
  have := h.start
  rw [h.bytes, length_drop, h.next]
  omega

/-- The loop drops a prefix, moves the start by its length and ends within
the limit. -/
theorem evict_spec (limit : ℕ) : ∀ (bs : List UInt8) (start : ℕ), start + bs.length ≤ u64Max →
    evict limit bs start = (bs.drop (bs.length - limit), start + (bs.length - limit), true)
  | [], start, _ => by simp [evict]
  | b :: bs, start, h => by
    have hlen : (b :: bs).length = bs.length + 1 := rfl
    rw [evict]
    by_cases hc : limit < (b :: bs).length
    · have h1 : start + 1 ≤ u64Max := by omega
      have h2 : (b :: bs).length - limit = (bs.length - limit) + 1 := by omega
      rw [if_pos hc, if_pos h1, evict_spec limit bs (start + 1) (by omega), h2, drop_succ_cons]
      simp only [Prod.mk.injEq, and_true, true_and]
      omega
    · have h0 : (b :: bs).length - limit = 0 := by omega
      rw [if_neg hc, h0]
      rfl

/-- **A push appends to the stream, or is refused and changes nothing.** -/
theorem push_spec (h : Retains r s) (bs : List UInt8) :
    (u64Max < s.length + bs.length ∧ r.push bs = (r, .error .offsetOverflow)) ∨
    (∃ r', r.push bs = (r', .ok ⟨s.length, bs⟩) ∧ Retains r' (s ++ bs) ∧ r'.limit = r.limit ∧
      r.startOffset ≤ r'.startOffset) := by
  have hlen := h.length
  have hnext := h.next
  unfold push
  by_cases hc : r.nextOffset + bs.length ≤ u64Max
  · right
    rw [if_pos hc, evict_spec _ _ _ (by rw [length_append]; omega), ← hnext]
    refine ⟨⟨_, r.limit, _, _⟩, rfl, ⟨?_, ?_, ?_, ?_, ?_⟩, rfl, Nat.le_add_right _ _⟩
    · simp [hnext]
    · rw [length_append]; omega
    · simp only [length_append]; omega
    · rw [h.bytes, ← drop_append_of_le_length h.start, drop_drop]
    · simp only [length_drop]; omega
  · left
    exact ⟨by omega, if_neg hc⟩

/-- What a push cannot change: pushing nothing is the identity. -/
theorem push_nil (h : Retains r s) :
    r.push [] = (r, .ok ⟨s.length, []⟩) := by
  have hlen := h.length
  have hnext := h.next
  have hfits := h.fits
  have hbound := h.bound
  have h0 : r.bytes.length - r.limit = 0 := by omega
  unfold push
  simp only [length_nil, Nat.add_zero, append_nil]
  rw [if_pos (by omega), evict_spec _ _ _ (by omega), h0, ← hnext]
  rfl

/-! ### What the ring reads back -/

variable {offset : ℕ}

theorem Retains.read (h : Retains r s) (ho : r.startOffset ≤ offset) (n : ℕ) :
    (r.bytes.drop (offset - r.startOffset)).take n = s.extract offset (offset + n) := by
  rw [h.bytes, drop_drop, Nat.add_sub_cancel' ho, List.extract, Nat.add_sub_cancel_left]

theorem bytesFromLimited_spec (h : Retains r s) (ho : r.startOffset ≤ offset) (limit : ℕ) :
    r.bytesFromLimited offset limit = s.extract offset (offset + limit) :=
  h.read ho limit

/-- A chunk is read exactly when the ring still holds its first byte. -/
theorem chunk_spec (h : Retains r s) {stop : ℕ} (limit : ℕ) (hlt : offset < stop)
    (hs : stop ≤ s.length) : (offset < r.startOffset ∧ r.chunk offset stop limit = none) ∨
    (r.startOffset ≤ offset ∧ r.chunk offset stop limit =
      some ⟨offset, s.extract offset (min stop (offset + limit))⟩) := by
  have hnext := h.next
  unfold chunk
  by_cases hc : offset < r.startOffset
  · exact Or.inl ⟨hc, if_pos (Or.inl hc)⟩
  · right
    refine ⟨by omega, ?_⟩
    rw [if_neg (by omega), h.read (by omega)]
    congr 3
    omega

end OutputRing
end Pohunek.Output
