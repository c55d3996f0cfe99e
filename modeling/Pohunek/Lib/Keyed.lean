/-
# Rows found by a key, and the latest of stamped values

A table is a list; a row is found by a predicate, and an update changes the
first row found (`modifyFirst`). `latest stamp l` is the register that keeps
the value with the greatest stamp it has seen: with distinct stamps it is the
one value of `l` that no other value exceeds (`latest_eq_some_iff`), so the
order of `l` does not matter.
-/
import Mathlib.Data.List.Forall2
import Mathlib.Data.List.Nodup
import Mathlib.Tactic

namespace Keyed

open List

variable {α : Type*}

/-! ### The first row -/

def modifyFirst (p : α → Bool) (f : α → α) : List α → List α
  | [] => []
  | x :: xs => if p x then f x :: xs else x :: modifyFirst p f xs

section First

variable {p q : α → Bool} {f : α → α}

theorem find?_modifyFirst (hf : ∀ x, p x → p (f x)) : ∀ l : List α,
    (modifyFirst p f l).find? p = (l.find? p).map f
  | [] => rfl
  | x :: xs => by
    rw [modifyFirst]
    by_cases hx : p x
    · rw [if_pos hx, find?_cons_of_pos (hf x hx), find?_cons_of_pos hx]
      rfl
    · rw [if_neg hx, find?_cons_of_neg hx, find?_cons_of_neg hx, find?_modifyFirst hf xs]

/-- A row found by another key is the same as before. -/
theorem find?_modifyFirst_of_ne (hpq : ∀ x, p x → q x = false ∧ q (f x) = false) : ∀ l : List α,
    (modifyFirst p f l).find? q = l.find? q
  | [] => rfl
  | x :: xs => by
    rw [modifyFirst]
    by_cases hx : p x
    · obtain ⟨hq, hqf⟩ := hpq x hx
      rw [if_pos hx, find?_cons_of_neg (by simp [hqf]), find?_cons_of_neg (by simp [hq])]
    · rw [if_neg hx, find?_cons, find?_cons, find?_modifyFirst_of_ne hpq xs]

theorem filter_modifyFirst_le (q : α → Bool) : ∀ l : List α,
    ((modifyFirst p f l).filter q).length ≤ (l.filter q).length + 1
  | [] => Nat.zero_le _
  | x :: xs => by
    have htail : ((x :: xs).filter q).length ≥ (xs.filter q).length := by
      rw [filter_cons]
      split <;> simp
    have ih := filter_modifyFirst_le q xs
    rw [modifyFirst]
    split
    · rw [filter_cons]
      split
      · rw [length_cons]
        omega
      · omega
    · rw [filter_cons, filter_cons]
      split
      · rw [length_cons, length_cons]
        omega
      · exact ih

theorem modifyFirst_map {β : Type*} {g : β → α} {f' : β → β} (hf : ∀ x, f (g x) = g (f' x)) :
    ∀ l : List β, modifyFirst p f (l.map g) = (modifyFirst (fun x => p (g x)) f' l).map g
  | [] => rfl
  | x :: xs => by
    rw [map_cons, modifyFirst, modifyFirst]
    split
    · rw [map_cons, hf]
    · rw [map_cons, modifyFirst_map hf xs]

theorem mem_modifyFirst {y : α} : ∀ {l : List α}, y ∈ modifyFirst p f l → y ∈ l ∨ ∃ x ∈ l,
    p x ∧ y = f x
  | [], h => absurd h not_mem_nil
  | x :: xs, h => by
    rw [modifyFirst] at h
    split at h
    · rename_i hx
      rcases mem_cons.mp h with rfl | h
      · exact .inr ⟨x, mem_cons_self, hx, rfl⟩
      · exact .inl (mem_cons_of_mem _ h)
    · rcases mem_cons.mp h with rfl | h
      · exact .inl mem_cons_self
      · rcases mem_modifyFirst h with h | ⟨z, hz, hp, rfl⟩
        · exact .inl (mem_cons_of_mem _ h)
        · exact .inr ⟨z, mem_cons_of_mem _ hz, hp, rfl⟩

/-- Where the update keeps a relation, the lists are related row by row. -/
theorem forall₂_modifyFirst {R : α → α → Prop} (hrefl : ∀ x, R x x) (hf : ∀ x, p x → R x (f x)) :
    ∀ l : List α, List.Forall₂ R l (modifyFirst p f l)
  | [] => .nil
  | x :: xs => by
    rw [modifyFirst]
    split
    · rename_i hx
      exact .cons (hf x hx) (forall₂_same.mpr fun y _ => hrefl y)
    · exact .cons (hrefl x) (forall₂_modifyFirst hrefl hf xs)

/-- Rows that neither are nor become the changed one stay, in their order. -/
theorem filter_modifyFirst {q : α → Bool} (h : ∀ x, p x → q x = false ∧ q (f x) = false) :
    ∀ l : List α, (modifyFirst p f l).filter q = l.filter q
  | [] => rfl
  | x :: xs => by
    rw [modifyFirst]
    split
    · rename_i hx
      rw [filter_cons_of_neg (by simp [(h x hx).2]), filter_cons_of_neg (by simp [(h x hx).1])]
    · rw [filter_cons, filter_cons, filter_modifyFirst h xs]

end First

/-! ### The latest value -/

variable (stamp : α → ℕ)

/-- The register after one more value. -/
def newer : Option α → α → Option α
  | none, x => some x
  | some y, x => if stamp y < stamp x then some x else some y

def latest (l : List α) : Option α := l.foldl (newer stamp) none

variable {stamp}

theorem latest_snoc (l : List α) (x : α) :
    latest stamp (l ++ [x]) = newer stamp (latest stamp l) x := by
  rw [latest, foldl_append]
  rfl

/-- What the register holds is of the list, and nothing there is later. -/
theorem latest_spec (l : List α) :
    (latest stamp l = none → l = []) ∧
    ∀ x, latest stamp l = some x → x ∈ l ∧ ∀ y ∈ l, stamp y ≤ stamp x := by
  induction l using List.reverseRecOn with
  | nil => exact ⟨fun _ => rfl, fun x h => (nomatch h)⟩
  | append_singleton l z ih =>
    rw [latest_snoc]
    cases hl : latest stamp l with
    | none =>
      obtain rfl := ih.1 hl
      refine ⟨fun h => (nomatch h), fun x h => ?_⟩
      cases h
      simp
    | some w =>
      obtain ⟨hmem, hmax⟩ := ih.2 w hl
      have hnewer : newer stamp (some w) z = if stamp w < stamp z then some z else some w := rfl
      rw [hnewer]
      split
      · refine ⟨fun h => (nomatch h), fun x h => ?_⟩
        cases h
        refine ⟨by simp, fun y hy => ?_⟩
        rcases mem_append.mp hy with hy | hy
        · have := hmax y hy
          omega
        · rw [mem_singleton.mp hy]
      · refine ⟨fun h => (nomatch h), fun x h => ?_⟩
        cases h
        refine ⟨mem_append_left _ hmem, fun y hy => ?_⟩
        rcases mem_append.mp hy with hy | hy
        · exact hmax y hy
        · rw [mem_singleton.mp hy]
          omega

/-- **With distinct stamps the latest value is the one that none exceeds.** -/
theorem latest_eq_some_iff {l : List α} (hdistinct : (l.map stamp).Nodup) (x : α) :
    latest stamp l = some x ↔ x ∈ l ∧ ∀ y ∈ l, stamp y ≤ stamp x := by
  refine ⟨(latest_spec l).2 x, ?_⟩
  rintro ⟨hmem, hmax⟩
  cases hl : latest stamp l with
  | none =>
    rw [(latest_spec l).1 hl] at hmem
    simp at hmem
  | some w =>
    obtain ⟨hw, hwmax⟩ := (latest_spec l).2 w hl
    have heq : stamp w = stamp x := Nat.le_antisymm (hmax w hw) (hwmax x hmem)
    rw [inj_on_of_nodup_map hdistinct hw hmem heq]

end Keyed
