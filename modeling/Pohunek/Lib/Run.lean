/-
# Runs of a labelled step relation

A system is a step relation `step : σ → ℓ → σ → Prop`; a label says which
operation was taken and what it answered. `Run step s tr t` is a run from
`s` to `t` with the labels `tr`, oldest first, so a property of a whole run
is a property of its trace and its last state. Every invariant of a system
is proved by one of two rules: `Run.invariant` for a property of the state,
`Run.history` for a property that relates the state to the trace that led
to it. `Run.appended` is for a list that only grows.
-/
import Mathlib.Tactic

/-- What holds of a list and of one more. -/
theorem List.forall_mem_snoc {α : Type*} {P : α → Prop} {l : List α} {a : α} (h : ∀ x ∈ l, P x)
    (ha : P a) : ∀ x ∈ l ++ [a], P x :=
  forall_mem_append.mpr ⟨h, forall_mem_singleton.mpr ha⟩

namespace Runs

open List Option

variable {σ ℓ : Type*} {step : σ → ℓ → σ → Prop}

/-- A run, oldest label first. -/
inductive Run (step : σ → ℓ → σ → Prop) : σ → List ℓ → σ → Prop
  | refl (s : σ) : Run step s [] s
  | snoc {s t u : σ} {tr : List ℓ} {l : ℓ} : Run step s tr t → step t l u → Run step s (tr ++ [l]) u

namespace Run

variable {s t : σ} {l : ℓ}

theorem single (h : step s l t) : Run step s [l] t :=
  Run.snoc (Run.refl s) h

theorem append {s t u : σ} {a b : List ℓ} (h : Run step s a t) (h' : Run step t b u) :
    Run step s (a ++ b) u := by
  induction h' with
  | refl => simpa using h
  | snoc _ hs ih => rw [← append_assoc]; exact Run.snoc ih hs

variable {tr : List ℓ}

/-- The last step of a run, taken off. -/
theorem snoc_inv {s u : σ} (h : Run step s (tr ++ [l]) u) :
    ∃ t, Run step s tr t ∧ step t l u := by
  generalize hw : tr ++ [l] = w at h
  cases h with
  | refl => simp at hw
  | snoc h hs =>
    obtain ⟨rfl, rfl⟩ := append_inj' hw rfl |>.imp_right singleton_inj.mp
    exact ⟨_, h, hs⟩

/-- A run, cut between two labels. -/
theorem split {s u : σ} {a : List ℓ} : ∀ {b : List ℓ}, Run step s (a ++ b) u →
    ∃ t, Run step s a t ∧ Run step t b u := by
  intro b
  induction b using List.reverseRecOn generalizing u with
  | nil => intro h; exact ⟨u, by simpa using h, Run.refl u⟩
  | append_singleton b l ih =>
    intro h
    rw [← append_assoc] at h
    obtain ⟨v, hv, hs⟩ := h.snoc_inv
    obtain ⟨t, ha, hb⟩ := ih hv
    exact ⟨t, ha, Run.snoc hb hs⟩

theorem cons {s t u : σ} (h : step s l t) (h' : Run step t tr u) :
    Run step s (l :: tr) u :=
  (single h).append h'

/-- The steps of a run, read as steps of another system. -/
theorem mono {step' : σ → ℓ → σ → Prop} (hstep : ∀ {s l t}, step s l t → step' s l t)
    (h : Run step s tr t) : Run step' s tr t := by
  induction h with
  | refl => exact .refl _
  | snoc _ hs ih => exact .snoc ih (hstep hs)

theorem nil_inv (h : Run step s [] t) : t = s := by
  generalize hw : ([] : List ℓ) = w at h
  cases h with
  | refl => rfl
  | snoc => simp at hw

/-- The first step of a run, taken off. -/
theorem cons_inv {s u : σ} (h : Run step s (l :: tr) u) :
    ∃ t, step s l t ∧ Run step t tr u := by
  obtain ⟨t, h1, h2⟩ := split (a := [l]) h
  obtain ⟨t', h3, h4⟩ := snoc_inv (show Run step s ([] ++ [l]) t from h1)
  exact ⟨t, h3.nil_inv ▸ h4, h2⟩

/-- **State invariant.** What holds at the start and is kept by every step
holds in every state of every run. -/
@[elab_as_elim]
theorem invariant {I : σ → Prop} {s : σ} (h0 : I s)
    (hstep : ∀ {t l u}, I t → step t l u → I u) {t : σ} (h : Run step s tr t) : I t := by
  induction h with
  | refl => exact h0
  | snoc _ hs ih => exact hstep ih hs

/-- **History invariant.** As `invariant`, for a property of the trace and
the state it led to. -/
@[elab_as_elim]
theorem history {s : σ} {I : List ℓ → σ → Prop} (h0 : I [] s)
    (hstep : ∀ {tr t l u}, Run step s tr t → I tr t → step t l u → I (tr ++ [l]) u)
    {t : σ} (h : Run step s tr t) : I tr t := by
  induction h with
  | refl => exact h0
  | snoc h hs ih => exact hstep h ih hs

/-- **Logs.** Where each step appends at most one item to a list, and what it
appends is justified by the state before it, every item of a run is justified
by a state the run went through. -/
theorem appended {α : Type*} {f : σ → List α} {P : σ → α → Prop}
    (hstep : ∀ {s l t}, step s l t → f t = f s ∨ ∃ a, f t = f s ++ [a] ∧ P s a)
    (h : Run step s tr t) : ∃ new, f t = f s ++ new ∧ ∀ a ∈ new, ∃ earlier later moment,
      tr = earlier ++ later ∧ Run step s earlier moment ∧ P moment a := by
  induction h with
  | refl => exact ⟨[], (append_nil _).symm, nofun⟩
  | @snoc t u tr l hrun hs ih =>
    obtain ⟨new, hnew, hjustified⟩ := ih
    have hbefore : ∀ a ∈ new, ∃ earlier later moment,
        tr ++ [l] = earlier ++ later ∧ Run step s earlier moment ∧ P moment a := by
      intro a ha
      obtain ⟨earlier, later, moment, rfl, hreached, hP⟩ := hjustified a ha
      exact ⟨earlier, later ++ [l], moment, append_assoc .., hreached, hP⟩
    rcases hstep hs with hsame | ⟨a, hone, hP⟩
    · exact ⟨new, hsame.trans hnew, hbefore⟩
    · refine ⟨new ++ [a], by rw [hone, hnew, append_assoc], List.forall_mem_snoc hbefore ?_⟩
      exact ⟨tr, [l], t, rfl, hrun, hP⟩

end Run

/-! ### Systems given by a function

A system whose calls are computed: `exec s c` is the state after the call and
its answer, `none` where the call cannot be made. -/

/-- A call with its answer. -/
structure Label (κ α : Type*) where
  call : κ
  answer : α

variable {κ α : Type*} (exec : σ → κ → Option (σ × α))

/-- The step relation of a computed system. -/
def StepOf (s : σ) (l : Label κ α) (t : σ) : Prop := exec s l.call = some (t, l.answer)

/-- The calls made one after the other. -/
def execAll : σ → List κ → Option (σ × List (Label κ α))
  | s, [] => some (s, [])
  | s, c :: cs =>
    match exec s c with
    | none => none
    | some (t, a) => (execAll t cs).map fun r => (r.1, ⟨c, a⟩ :: r.2)

theorem execAll_run : ∀ (cs : List κ) {s t : σ} {tr : List (Label κ α)},
    execAll exec s cs = some (t, tr) → Run (StepOf exec) s tr t
  | [], s, t, tr, h => by
    obtain ⟨rfl, rfl⟩ := h
    exact .refl _
  | c :: cs, s, t, tr, h => by
    rw [execAll] at h
    split at h
    · simp at h
    · rename_i u a hs
      obtain ⟨⟨t', tr'⟩, hr, he⟩ := map_eq_some_iff.mp h
      obtain ⟨rfl, rfl⟩ := he
      exact .cons hs (execAll_run cs hr)

/-- The calls of the labels are the calls made. -/
theorem execAll_calls : ∀ (cs : List κ) {s t : σ} {tr : List (Label κ α)},
    execAll exec s cs = some (t, tr) → tr.map (·.call) = cs
  | [], s, t, tr, h => by
    simp only [execAll, some.injEq, Prod.mk.injEq] at h
    rw [← h.2]
    rfl
  | c :: cs, s, t, tr, h => by
    rw [execAll] at h
    split at h
    · simp at h
    · obtain ⟨⟨t', tr'⟩, hr, he⟩ := map_eq_some_iff.mp h
      simp only [Prod.mk.injEq] at he
      rw [← he.2, map_cons, execAll_calls cs hr]

/-- The run of given calls. -/
theorem execAll_get (s : σ) (cs : List κ) (h : (execAll exec s cs).isSome) :
    Run (StepOf exec) s ((execAll exec s cs).get h).2 ((execAll exec s cs).get h).1 ∧
      ((execAll exec s cs).get h).2.map (·.call) = cs :=
  ⟨execAll_run exec cs (some_get h).symm, execAll_calls exec cs (some_get h).symm⟩

/-- A run of given calls with a computed property. -/
theorem execAll_any {s : σ} {cs : List κ} {check : σ × List (Label κ α) → Bool}
    (h : (execAll exec s cs).any check = true) :
    ∃ tr t, Run (StepOf exec) s tr t ∧ tr.map (·.call) = cs ∧ check (t, tr) := by
  obtain ⟨⟨t, tr⟩, hsome, hcheck⟩ := (any_eq_true _ _).mp h
  exact ⟨tr, t, execAll_run exec cs hsome, execAll_calls exec cs hsome, hcheck⟩

/-- The states a partial step function leads through. -/
def steps (step : σ → ℓ → Option σ) : σ → List ℓ → Option σ
  | s, [] => some s
  | s, l :: ls => (step s l).bind fun t => steps step t ls

variable {step : σ → ℓ → Option σ}

theorem steps_run : ∀ (ls : List ℓ) {s t : σ}, steps step s ls = some t →
    Run (fun s l t => step s l = some t) s ls t
  | [], _, _, h => some.inj h ▸ .refl _
  | _ :: ls, _, _, h => by
    obtain ⟨_, hs, ht⟩ := bind_eq_some_iff.mp h
    exact .cons hs (steps_run ls ht)

/-- The state that given inputs lead to. -/
theorem steps_get (step : σ → ℓ → Option σ) (s : σ) (ls : List ℓ) (h : (steps step s ls).isSome) :
    Run (fun s l t => step s l = some t) s ls ((steps step s ls).get h) :=
  steps_run ls (some_get h).symm

/-- A state with a computed property that given inputs lead to. -/
theorem steps_any {s : σ} {ls : List ℓ} {check : σ → Bool}
    (h : (steps step s ls).any check = true) : ∃ t, Run (fun s l t => step s l = some t) s ls t ∧
    check t := by
  obtain ⟨t, hsome, hcheck⟩ := (any_eq_true _ _).mp h
  exact ⟨t, steps_run ls hsome, hcheck⟩

/-- A step that is taken where the guard allows it. -/
def guarded (step : σ → ℓ → Option σ) (guard : σ → ℓ → Bool) (s : σ) (l : ℓ) : Option σ :=
  if guard s l then step s l else none

theorem guarded_eq_some {guard : σ → ℓ → Bool} {s t : σ} {l : ℓ}
    (h : guarded step guard s l = some t) : step s l = some t ∧ guard s l := by
  unfold guarded at h
  split at h
  · rename_i hguard
    exact ⟨h, hguard⟩
  · cases h

end Runs
