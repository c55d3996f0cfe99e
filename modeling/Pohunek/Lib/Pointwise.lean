/-
# Lists compared item by item

`List.Forall₂ R l u` says that `l` and `u` have the same length and agree item
by item in the sense of `R`. What the members know of each other
(`exists_right`, `exists_left`), what every item of one side satisfies
(`and_right_iff`), how a comparison through an intermediate value splits
into a comparison and a map (`map_iff`), and what is found on both sides
(`find?_rel`).
-/
import Mathlib.Data.List.Forall2

namespace Pointwise

open List

variable {α β γ : Type*} {R : α → β → Prop} {l : List α} {u : List β}

theorem exists_right (h : Forall₂ R l u) {a : α} (ha : a ∈ l) : ∃ b ∈ u, R a b := by
  induction h with
  | nil => exact absurd ha not_mem_nil
  | cons hhead _ ih =>
    rcases mem_cons.mp ha with rfl | ha
    · exact ⟨_, mem_cons_self, hhead⟩
    · obtain ⟨b, hb, hR⟩ := ih ha
      exact ⟨b, mem_cons_of_mem _ hb, hR⟩

theorem exists_left (h : Forall₂ R l u) {b : β} (hb : b ∈ u) :
    ∃ a ∈ l, R a b := exists_right h.flip hb

theorem and_right_iff {p : β → Prop} :
    Forall₂ (fun a b => R a b ∧ p b) l u ↔ Forall₂ R l u ∧ ∀ b ∈ u, p b := by
  constructor
  · intro h
    refine ⟨h.imp fun a b hab => hab.1, fun b hb => ?_⟩
    obtain ⟨a, -, hab⟩ := exists_left h hb
    exact hab.2
  · rintro ⟨h, hp⟩
    induction h with
    | nil => exact .nil
    | cons hhead _ ih =>
      obtain ⟨hb, hrest⟩ := forall_mem_cons.mp hp
      exact .cons ⟨hhead, hb⟩ (ih hrest)

theorem map_iff {f : β → γ} {v : List γ} :
    Forall₂ (fun a c => ∃ b, R a b ∧ f b = c) l v ↔ ∃ u, Forall₂ R l u ∧ u.map f = v := by
  constructor
  · intro h
    induction h with
    | nil => exact ⟨[], .nil, rfl⟩
    | cons hhead _ ih =>
      obtain ⟨b, hR, rfl⟩ := hhead
      obtain ⟨u, hu, rfl⟩ := ih
      exact ⟨b :: u, .cons hR hu, rfl⟩
  · rintro ⟨u, hu, rfl⟩
    rw [forall₂_map_right_iff]
    exact hu.imp fun a b hR => ⟨b, hR, rfl⟩

/-- A predicate that the comparison respects finds related items. -/
theorem find?_rel {p : α → Bool} {q : β → Bool} (hpq : ∀ a b, R a b → p a = q b)
    (h : Forall₂ R l u) : Option.Rel R (l.find? p) (u.find? q) := by
  induction h with
  | nil => exact .none
  | @cons a b l u hab _ ih =>
    rw [find?_cons, find?_cons, hpq a b hab]
    cases q b with
    | true => exact .some hab
    | false => exact ih

end Pointwise
