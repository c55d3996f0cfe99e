/-
# Stretches of a numbered log

A log only grows; its items are numbered from one (`Numbered`), so the items
with a number in `(a, b]` are `l.extract a b`. A reader at position `a` that
looks for the next item it selects moves to the number of that item, or to
the end of the log where there is none: what it selected in between is that
one item or nothing (`extract_of_find?_some`, `extract_of_find?_none`).
-/
import Mathlib.Tactic

namespace Stretch

open List

variable {α : Type*}

/-! ### Two stretches in a row -/

variable {a : ℕ}

theorem extract_append_extract (l : List α) {b c : ℕ} (hab : a ≤ b) (hbc : b ≤ c) :
    l.extract a b ++ l.extract b c = l.extract a c := by
  rw [extract_eq_take_drop, extract_eq_take_drop, extract_eq_take_drop]
  have hdrop : l.drop b = (l.drop a).drop (b - a) := by
    rw [drop_drop]
    congr 1
    omega
  rw [hdrop, show c - a = (b - a) + (c - b) by omega, take_add]

theorem extract_grow (l t : List α) {b : ℕ} (hb : b ≤ l.length) :
    (l ++ t).extract a b = l.extract a b := by
  rw [extract_eq_take_drop, extract_eq_take_drop]
  by_cases ha : a ≤ l.length
  · rw [drop_append_of_le_length ha, take_append_of_le_length]
    rw [length_drop]
    omega
  · rw [show b - a = 0 by omega]
    simp

/-! ### The next selected item -/

theorem extract_of_find?_none {p : α → Bool} {l : List α} (h : (l.drop a).find? p = none) :
    (l.extract a l.length).filter p = [] := by
  rw [filter_eq_nil_iff]
  intro x hx
  exact find?_eq_none.mp h x (mem_of_mem_take hx)

/-- The next selected item has a number `b`, and is all that is selected up to it. -/
theorem extract_of_find?_some {p : α → Bool} {l : List α} {x : α}
    (h : (l.drop a).find? p = some x) :
    ∃ b, a < b ∧ b ≤ l.length ∧ l[b - 1]? = some x ∧ (l.extract a b).filter p = [x] := by
  obtain ⟨hp, before, after, hsplit, hbefore⟩ := find?_eq_some_iff_append.mp h
  have hlength := congrArg List.length hsplit
  rw [length_drop, length_append, length_cons] at hlength
  refine ⟨a + before.length + 1, by omega, by omega, ?_, ?_⟩
  · rw [show a + before.length + 1 - 1 = a + before.length by omega, ← getElem?_drop, hsplit]
    simp
  · rw [extract_eq_take_drop, hsplit, show a + before.length + 1 - a = before.length + 1 by omega]
    have hnone : before.filter p = [] := by
      rw [filter_eq_nil_iff]
      intro y hy
      have := hbefore y hy
      simpa using this
    rw [take_length_add_append, filter_append, hnone]
    simp [hp]

/-! ### Numbers -/

/-- The items of `l` are numbered one by one, above `o`. -/
def Numbered (number : α → ℕ) : ℕ → List α → Prop
  | _, [] => True
  | o, x :: l => number x = o + 1 ∧ Numbered number (o + 1) l

namespace Numbered

variable {number : α → ℕ}

theorem append {t : List α} : ∀ {o : ℕ} {l : List α}, Numbered number o l →
    Numbered number (o + l.length) t → Numbered number o (l ++ t)
  | _, [], _, ht => ht
  | o, _ :: l, ⟨hx, hl⟩, ht =>
    ⟨hx, append hl (by rwa [length_cons,
      show o + (l.length + 1) = o + 1 + l.length by omega] at ht)⟩

variable {l : List α}

theorem snoc {o : ℕ} {x : α} (h : Numbered number o l) (hx : number x = o + l.length + 1) :
    Numbered number o (l ++ [x]) :=
  h.append ⟨hx, trivial⟩

theorem take : ∀ {o : ℕ} {l : List α} (n : ℕ), Numbered number o l → Numbered number o (l.take n)
  | _, [], n, _ => by simp [Numbered]
  | _, _ :: _, 0, _ => trivial
  | _, _ :: _, n + 1, ⟨hx, hl⟩ => ⟨hx, take n hl⟩

theorem drop : ∀ {o : ℕ} {l : List α} (n : ℕ), Numbered number o l →
    Numbered number (o + n) (l.drop n)
  | _, [], n, _ => by simp [Numbered]
  | _, _ :: _, 0, h => h
  | o, _ :: _, n + 1, ⟨_, hl⟩ => by
    have := drop n hl
    rwa [show o + 1 + n = o + (n + 1) by omega] at this

theorem number_eq : ∀ {o : ℕ} {l : List α} {i : ℕ} {x : α}, Numbered number o l → l[i]? = some x →
    number x = o + i + 1
  | _, [], _, _, _, hx => by simp at hx
  | _, y :: _, 0, x, ⟨hy, _⟩, hx => by
    obtain rfl : y = x := by simpa using hx
    exact hy
  | o, _ :: _, i + 1, x, ⟨_, hl⟩, hx => by
    have := number_eq hl (by simpa using hx)
    omega

theorem lt_number {o : ℕ} {x : α} (h : Numbered number o l) (hx : x ∈ l) :
    o < number x ∧ number x ≤ o + l.length := by
  obtain ⟨i, hi, rfl⟩ := mem_iff_getElem.mp hx
  have := h.number_eq (getElem?_eq_getElem hi)
  omega

theorem pairwise : ∀ {o : ℕ} {l : List α}, Numbered number o l → (l.map number).Pairwise (· < ·)
  | _, [], _ => .nil
  | _, _ :: _, ⟨hx, hl⟩ => by
    refine pairwise_cons.mpr ⟨fun n hn => ?_, pairwise hl⟩
    obtain ⟨y, hy, rfl⟩ := mem_map.mp hn
    rw [hx]
    exact (lt_number hl hy).1

/-- The items with a number above `a`. -/
theorem filter_above (a : ℕ) : ∀ {o : ℕ} {l : List α}, Numbered number o l →
    l.filter (fun x => a < number x) = l.drop (a - o)
  | _, [], _ => by simp
  | o, x :: l, h => by
    obtain ⟨hx, hl⟩ := h
    by_cases hao : a ≤ o
    · have hall : ∀ y ∈ x :: l, decide (a < number y) = true := by
        intro y hy
        have := (lt_number (show Numbered number o (x :: l) from ⟨hx, hl⟩) hy).1
        simpa using by omega
      rw [filter_eq_self.mpr hall, show a - o = 0 by omega, drop_zero]
    · rw [filter_cons_of_neg (by simp; omega), filter_above a hl,
        show a - o = (a - (o + 1)) + 1 by omega, drop_succ_cons]

/-- The items with a number up to `b`. -/
theorem filter_upto (b : ℕ) : ∀ {o : ℕ} {l : List α}, Numbered number o l →
    l.filter (fun x => number x ≤ b) = l.take (b - o)
  | _, [], _ => by simp
  | o, x :: l, h => by
    obtain ⟨hx, hl⟩ := h
    by_cases hbo : b ≤ o
    · have hnone : ∀ y ∈ x :: l, ¬decide (number y ≤ b) = true := by
        intro y hy
        have := (lt_number (show Numbered number o (x :: l) from ⟨hx, hl⟩) hy).1
        simpa using by omega
      rw [filter_eq_nil_iff.mpr hnone, show b - o = 0 by omega, take_zero]
    · rw [filter_cons_of_pos (by simp; omega), filter_upto b hl,
        show b - o = (b - (o + 1)) + 1 by omega, take_succ_cons]

/-- The items with a number in `(a, b]`. -/
theorem filter_range (h : Numbered number 0 l) (a b : ℕ) :
    l.filter (fun x => a < number x ∧ number x ≤ b) = l.extract a b := by
  have hsplit : (fun x => decide (a < number x ∧ number x ≤ b)) =
      fun x => decide (a < number x) && decide (number x ≤ b) := by
    funext x
    simp
  rw [hsplit, ← filter_filter, h.filter_upto b, (h.take (b - 0)).filter_above a,
    extract_eq_take_drop, drop_take]
  rfl

end Numbered

end Stretch
