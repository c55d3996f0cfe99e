/-
# Streams that come and go in pieces

A stream is read in the pieces its peer makes available, and written in the
pieces its peer accepts. `fill n pieces` is a loop of reads that gathers `n`
items or what there is before the end; `accepted sizes items` is a loop of
writes that hands over all items, the sink taking `sizes` of them at a time.
What is gathered and what is handed over does not depend on the pieces
(`fill_of_prefix`, `fill_of_le`, `accepted_flatten`).
-/
import Mathlib.Tactic

namespace Chunks

open List

variable {α : Type*}

/-- The items gathered by a loop of reads, and the pieces left. -/
def fill : ℕ → List (List α) → List α × List (List α)
  | _, [] => ([], [])
  | n, piece :: pieces =>
    if n = 0 then ([], piece :: pieces)
    else if piece.length ≤ n then
      (piece ++ (fill (n - piece.length) pieces).1, (fill (n - piece.length) pieces).2)
    else (piece.take n, piece.drop n :: pieces)

theorem fill_fst : ∀ (n : ℕ) (pieces : List (List α)), (fill n pieces).1 = pieces.flatten.take n
  | n, [] => by simp [fill]
  | n, piece :: pieces => by
    rw [fill, flatten_cons]
    split
    · rename_i h0
      simp [h0]
    · split
      · rename_i hle
        rw [fill_fst (n - piece.length) pieces, take_append, take_of_length_le hle]
      · rw [take_append_of_le_length (by omega)]

theorem fill_snd : ∀ (n : ℕ) (pieces : List (List α)),
    (fill n pieces).2.flatten = pieces.flatten.drop n
  | n, [] => by simp [fill]
  | n, piece :: pieces => by
    rw [fill, flatten_cons]
    split
    · rename_i h0
      simp [h0]
    · split
      · rename_i hle
        rw [fill_snd (n - piece.length) pieces, drop_append, drop_of_length_le hle, nil_append]
      · rw [flatten_cons, drop_append_of_le_length (by omega)]

variable {pieces : List (List α)}

/-- A loop of reads that finds its items. -/
theorem fill_of_prefix {items tail : List α} (h : pieces.flatten = items ++ tail) :
    ∃ rest, fill items.length pieces = (items, rest) ∧ rest.flatten = tail := by
  refine ⟨(fill items.length pieces).2, Prod.ext ?_ rfl, ?_⟩
  · rw [fill_fst, h, take_left]
  · rw [fill_snd, h, drop_left]

variable {n : ℕ}

/-- A loop of reads that meets the end. -/
theorem fill_of_le (h : pieces.flatten.length ≤ n) :
    ∃ rest, fill n pieces = (pieces.flatten, rest) := by
  refine ⟨(fill n pieces).2, Prod.ext ?_ rfl⟩
  rw [fill_fst, take_of_length_le h]

/-- A stream that was cut no earlier than behind `front` has all of `front`. -/
theorem exists_of_cut {stream missing front back : List α} (h : stream ++ missing = front ++ back)
    (hle : front.length ≤ stream.length) : ∃ part, stream = front ++ part ∧
    part ++ missing = back := by
  have hfront : front <+: stream := by
    refine prefix_of_prefix_length_le (prefix_append front back) ?_ hle
    rw [← h]
    exact prefix_append stream missing
  obtain ⟨part, rfl⟩ := hfront
  rw [append_assoc] at h
  exact ⟨part, rfl, append_cancel_left h⟩

/-- The pieces a sink accepts, one more item than each of `sizes` at a time and
then the rest at once. -/
def accepted : List ℕ → List α → List (List α)
  | [], items => [items]
  | size :: sizes, items => items.take (size + 1) :: accepted sizes (items.drop (size + 1))

theorem accepted_flatten : ∀ (sizes : List ℕ) (items : List α),
    (accepted sizes items).flatten = items
  | [], items => by simp [accepted]
  | size :: sizes, items => by
    rw [accepted, flatten_cons, accepted_flatten sizes, take_append_drop]

end Chunks
