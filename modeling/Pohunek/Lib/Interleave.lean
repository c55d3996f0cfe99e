/-
# Users that share one sink

Several users take turns at a shared resource. What orders them is a lock,
what can be seen of the order is the sequence of the users' items.

* A guard of a lock lives from one point of its user's program to another, so
  whether a user has the guard is a function of where the user is. `relock` is
  the lock after its user moved; `Exact` says that the lock is held exactly by
  the user that has the guard, which every move keeps (`Exact.relock`), so two
  users never have it at once (`Exact.unique`).
* `Blocks l` says that equal items of `l` stand together: nothing else lies
  between two of them. A sequence stays so when it goes on with its last item
  or with an item it does not have yet (`Blocks.extend`).
-/
import Mathlib.Tactic

namespace Interleave

open List

variable {κ : Type*}

/-! ### Guards -/

/-- The lock after `user` went from where it has the guard or not (`held`) to
where it has it or not (`held'`); `none` when the lock is taken. -/
def relock (lock : Option κ) (user : κ) (held held' : Bool) : Option (Option κ) :=
  match held, held' with
  | false, true =>
    match lock with
    | none => some (some user)
    | some _ => none
  | true, false => some none
  | _, _ => some lock

/-- The lock is held exactly by the user that has the guard. -/
def Exact (lock : Option κ) (held : κ → Bool) : Prop := ∀ u, held u = true ↔ lock = some u

theorem Exact.unique {lock : Option κ} {held : κ → Bool} (h : Exact lock held) {u v : κ}
    (hu : held u) (hv : held v) : u = v :=
  Option.some.inj (((h u).mp hu).symm.trans ((h v).mp hv))

/-- A move of one user keeps the lock exact. -/
theorem Exact.relock {lock lock' : Option κ} {held held' : κ → Bool}
    (h : Exact lock held) {user : κ}
    (hmove : Interleave.relock lock user (held user) (held' user) = some lock')
    (hother : ∀ u, u ≠ user → held' u = held u) : Exact lock' held' := by
  intro u
  -- the guard stays where it was
  have hkeep : held' user = held user → lock = lock' → (held' u = true ↔ lock' = some u) := by
    rintro hsame rfl
    by_cases hu : u = user
    · rw [hu, hsame]
      exact h user
    · rw [hother u hu]
      exact h u
  cases hh : held user with
  | false =>
    cases hh' : held' user with
    | false =>
      rw [hh, hh'] at hmove
      exact hkeep (hh'.trans hh.symm) (Option.some.inj hmove)
    | true =>
      -- the guard was taken, so nobody had it
      rw [hh, hh'] at hmove
      cases lock with
      | some v => cases hmove
      | none =>
        obtain rfl : some user = lock' := Option.some.inj hmove
        by_cases hu : u = user
        · rw [hu, hh']
          simp
        · rw [hother u hu, h u]
          simp [Ne.symm hu]
  | true =>
    have hlock : lock = some user := (h user).mp hh
    cases hh' : held' user with
    | false =>
      rw [hh, hh'] at hmove
      obtain rfl : none = lock' := Option.some.inj hmove
      by_cases hu : u = user
      · rw [hu, hh']
        simp
      · rw [hother u hu, h u, hlock]
        simp [Ne.symm hu]
    | true =>
      rw [hh, hh'] at hmove
      exact hkeep (hh'.trans hh.symm) (Option.some.inj hmove)

/-! ### Blocks -/

/-- Equal items stand together. -/
def Blocks (l : List κ) : Prop := ∀ a x b c, l = a ++ x :: b ++ x :: c → ∀ z ∈ b, z = x

theorem Blocks.nil : Blocks ([] : List κ) := by
  intro a x b c h
  simp at h

theorem Blocks.snoc {l : List κ} (h : Blocks l) {y : κ} (hy : y ∉ l ∨ l.getLast? = some y) :
    Blocks (l ++ [y]) := by
  intro a x b c heq z hz
  rcases eq_nil_or_concat c with rfl | ⟨c, w, rfl⟩
  · -- the new item is the right one of the two
    obtain ⟨hl, hyx⟩ := append_inj' heq rfl
    obtain rfl : y = x := singleton_inj.mp hyx
    rcases hy with hy | hlast
    · exact absurd (by simp [hl]) hy
    · rcases eq_nil_or_concat b with rfl | ⟨b, w, rfl⟩
      · exact absurd hz not_mem_nil
      · have hl' : l = a ++ y :: b ++ [w] := by simpa using hl
        obtain rfl : w = y := by
          rw [hl', getLast?_concat] at hlast
          exact Option.some.inj hlast
        rw [concat_eq_append] at hz
        rcases mem_append.mp hz with hz | hz
        · exact h a w b [] hl' z hz
        · exact mem_singleton.mp hz
  · have hcut : l ++ [y] = (a ++ x :: b ++ x :: c) ++ [w] := by simpa using heq
    exact h a x b c (append_inj' hcut rfl).1 z hz

/-- A sequence goes on with one item, which is its last one or a new one. -/
theorem Blocks.extend {l : List κ} (h : Blocks l) {y : κ} (hy : y ∉ l ∨ l.getLast? = some y) :
    ∀ {more : List κ}, (∀ z ∈ more, z = y) → Blocks (l ++ more) := by
  intro more
  induction more generalizing l with
  | nil => intro _; simpa using h
  | cons z more ih =>
    intro hall
    obtain rfl : z = y := hall z mem_cons_self
    have hstep := ih (h.snoc hy) (.inr (by simp)) fun w hw => hall w (mem_cons_of_mem z hw)
    simpa using hstep

end Interleave
