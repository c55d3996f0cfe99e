/-
# Checks that may fail

Code that checks its input one condition after the other is a chain of binds in
`Except`. The lemmas here take such a chain apart, and put it together again:
the chain succeeds iff every check does (`bind_ok_iff`, `require_ok_iff`,
`mapError_ok_iff`, `ofOption_ok_iff`, `forM_ok_iff` for a loop). They are
stated as equivalences, so one rewriting gives both directions of what a
checker accepts.
-/
import Mathlib.Tactic

namespace Fallible

open Except

universe u

variable {ε ε' : Type*} {α β : Type u}

/-- A condition, or an error. -/
def require (condition : Bool) (error : ε) : Except ε Unit := if condition then .ok ()
    else .error error

/-- A value, or an error where there is none. -/
def ofOption (error : ε) : Option α → Except ε α
  | some a => .ok a
  | none => .error error

variable {x : Except ε α}

theorem bind_ok_iff {f : α → Except ε β} {b : β} :
    (x >>= f) = .ok b ↔ ∃ a, x = .ok a ∧ f a = .ok b := by
  cases x with
  | error e => exact ⟨nofun, fun ⟨_, h, _⟩ => nomatch h⟩
  | ok a =>
    refine ⟨fun h => ⟨a, rfl, h⟩, ?_⟩
    rintro ⟨a', ha, h⟩
    obtain rfl := ok.inj ha
    exact h

variable {a : α}

theorem pure_ok_iff {b : α} : (pure a : Except ε α) = .ok b ↔ a = b :=
  ⟨ok.inj, fun h => congrArg ok h⟩

theorem require_ok_iff {condition : Bool} {error : ε} {u : Unit} :
    require condition error = .ok u ↔ condition := by
  cases condition
  · exact ⟨nofun, nofun⟩
  · exact ⟨fun _ => rfl, fun _ => rfl⟩

theorem mapError_ok_iff {f : ε → ε'} : x.mapError f = .ok a ↔ x = .ok a := by
  cases x with
  | error e => exact ⟨nofun, nofun⟩
  | ok b => exact ⟨fun h => congrArg ok (ok.inj h), fun h => congrArg ok (ok.inj h)⟩

theorem ofOption_ok_iff {error : ε} {x : Option α} : ofOption error x = .ok a ↔ x = some a := by
  cases x with
  | none => exact ⟨nofun, nofun⟩
  | some b => exact ⟨fun h => congrArg some (ok.inj h), fun h => congrArg ok (Option.some.inj h)⟩

theorem isOk_iff : x.isOk = true ↔ ∃ a, x = .ok a := by
  cases x with
  | error e => exact ⟨nofun, fun ⟨_, h⟩ => nomatch h⟩
  | ok a => exact ⟨fun _ => ⟨a, rfl⟩, fun _ => rfl⟩

/-- A loop of checks succeeds iff each does. -/
theorem forM_ok_iff {f : α → Except ε PUnit} {u : PUnit} : ∀ {l : List α},
    forM l f = .ok u ↔ ∀ x ∈ l, f x = .ok ⟨⟩
  | [] => by simp [pure, Except.pure]
  | x :: l => by
    rw [List.forM_cons, bind_ok_iff, List.forall_mem_cons]
    refine ⟨?_, fun ⟨hx, hl⟩ => ⟨⟨⟩, hx, forM_ok_iff.mpr hl⟩⟩
    rintro ⟨⟨⟩, hx, hl⟩
    exact ⟨hx, forM_ok_iff.mp hl⟩

end Fallible
