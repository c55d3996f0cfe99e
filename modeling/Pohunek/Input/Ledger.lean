/-
# What the deduplication decided

A call is decided under the state lock and never again: it writes, it joins
the call whose entry it found, or it is refused. `Ledger` is the invariant
that ties these decisions to the state: an entry is of a call of the current
epoch that writes, a control sequence of the epoch is under the watermark, an
evicted legacy id is in the filter. It needs no assumption on the digest.

An epoch is the time between two resets by `select_namespace`.
`Ledger.opened` is the reset, `Ledger.start` the decision after it,
`Ledger.trimmed` a completion, of whatever epoch.
-/
import Pohunek.Input.Coordinator

namespace Pohunek.Input

open Coordinator Request

variable (sha256 : List UInt8 → Digest)

/-! ### Calls -/

/-- What is fixed of a call when the state lock is released. -/
structure Call where
  request : Request
  action : Except InputError Action
  epoch : ℕ

def Task.call (task : Task) : Call := ⟨task.request, task.action, task.epoch⟩

def Coordinator.calls (c : Coordinator) (t : ℕ) : Option Call := (c.tasks t).map Task.call

/-- The call writes its plan. -/
structure Call.Writes (call : Call) (plan : InputPlan) : Prop where
  action : call.action = .ok .execute
  plan : call.request.plan = some plan

namespace Request

def mode : Request → Option DedupMode
  | control _ _ _ => some .monotonic
  | legacy _ _ => some .legacy
  | stream _ | reply _ => none

/-- The state with the namespace of the call selected. -/
def opened (s : DedupState) : Request → DedupState
  | control namespaceId _ _ => s.selectNamespace namespaceId .monotonic
  | legacy namespaceId _ => s.selectNamespace namespaceId .legacy
  | stream _ | reply _ => s

/-- Whether an id that has no entry is refused. -/
def expired (s : DedupState) : Request → Bool
  | control _ sequence _ => sequence ≤ s.highWatermark
  | legacy _ plan => s.legacyEvicted.mightContain sha256 plan.writeId
  | stream _ | reply _ => false

def advanced (s : DedupState) : Request → DedupState
  | control _ sequence _ => { s with highWatermark := sequence }
  | legacy _ _ | stream _ | reply _ => s

theorem mode_of_plan {r : Request} (h : r.plan.isSome) : ∃ m, r.mode = some m := by
  cases r with
  | control => exact ⟨.monotonic, rfl⟩
  | legacy => exact ⟨.legacy, rfl⟩
  | stream | reply => cases h

end Request

namespace Coordinator

/-- The coordinator with the namespace of the call selected. -/
def opened (c : Coordinator) (r : Request) : Coordinator :=
  { c with
    state := r.opened c.state
    epoch := c.epochOf r
    completions := if c.resets r then [] else c.completions }

theorem dedupe_plan (c : Coordinator) {r : Request} {plan : InputPlan} (h : r.plan = some plan) :
    DedupState.Admission (r.opened c.state) (r.expired sha256 (r.opened c.state))
      (r.advanced (r.opened c.state)) plan.writeId (fingerprint sha256 plan) c.nextTask
      (c.dedupe sha256 r) := by
  cases r with
  | control namespaceId sequence p =>
    cases h
    exact DedupState.dedupe_cases .monotonic (fun s => sequence ≤ s.highWatermark)
      (fun s => { s with highWatermark := sequence }) c.state namespaceId plan.writeId _ c.nextTask
  | legacy namespaceId p =>
    cases h
    exact DedupState.dedupe_cases .legacy
      (fun s => s.legacyEvicted.mightContain sha256 plan.writeId) id
      c.state namespaceId plan.writeId _ c.nextTask
  | stream | reply => cases h

variable {sha256} {c d : Coordinator}

/-- A namespace that is in use stays as it is; another one starts empty. -/
theorem opened_cases (c : Coordinator) (r : Request) :
    c.opened r = c ∨ (c.opened r).epoch = c.epoch + 1 ∧ (c.opened r).completions = [] ∧
    (c.opened r).state.entries = ∅ ∧
      (c.opened r).state.completed = [] ∧ (c.opened r).state.capacity = c.state.capacity := by
  cases r with
  | control namespaceId sequence plan =>
    cases hs : c.state.selected namespaceId .monotonic with
    | true => exact .inl (by simp [opened, Request.opened, epochOf, resets, hs,
      DedupState.selectNamespace])
    | false => exact .inr (by simp [opened, Request.opened, epochOf, resets, hs,
      DedupState.selectNamespace])
  | legacy namespaceId plan =>
    cases hs : c.state.selected namespaceId .legacy with
    | true => exact .inl (by simp [opened, Request.opened, epochOf, resets, hs,
      DedupState.selectNamespace])
    | false => exact .inr (by simp [opened, Request.opened, epochOf, resets, hs,
      DedupState.selectNamespace])
  | stream | reply => exact .inl rfl

theorem opened_mode {r : Request} {m : DedupMode} (h : r.mode = some m) (s : DedupState) :
    (r.opened s).mode = some m := by
  have hselect : ∀ namespaceId mode, (s.selectNamespace namespaceId mode).mode = some mode := by
    intro namespaceId mode
    unfold DedupState.selectNamespace
    split
    · rename_i hs
      exact (of_decide_eq_true hs).2
    · rfl
  cases r with
  | control namespaceId sequence plan =>
    cases h
    exact hselect _ _
  | legacy namespaceId plan =>
    cases h
    exact hselect _ _
  | stream | reply => cases h

theorem calls_start (c : Coordinator) (r : Request) : (c.start sha256 r).calls =
    Function.update c.calls c.nextTask (some ⟨r, (c.dedupe sha256 r).2, c.epochOf r⟩) := by
  funext t
  unfold calls
  by_cases ht : t = c.nextTask
  · subst ht
    simp [start, entered, Task.call]
  · simp [start, ht]

theorem Moved.calls {t : ℕ} {m : Move} {task : Task} {phase : Phase} {bytes : List UInt8}
    (h : c.Moved sha256 t m task phase bytes d) : d.calls = c.calls := by
  funext u
  unfold Coordinator.calls
  by_cases hu : u = t
  · rw [hu, h.tasks_self, h.known]
    rfl
  · rw [h.tasks_other hu]

end Coordinator

/-! ### The ledger -/

/-- The call `s` writes the id that `call` came with, in the same epoch. -/
structure SameWrite (calls : ℕ → Option Call) (s : ℕ) (plan : InputPlan) (call : Call)
    (plan' : InputPlan) : Prop where
  writes : ∃ first, calls s = some first ∧ first.Writes plan ∧ first.epoch = call.epoch
  repeats : call.request.plan = some plan'
  writeId : plan.writeId = plan'.writeId

/-- The call joins `s`. -/
def Joins (calls : ℕ → Option Call) (call : Call) (s : ℕ) : Prop :=
  ∃ plan plan', SameWrite calls s plan call plan' ∧
    fingerprint sha256 plan = fingerprint sha256 plan'

/-- The call is refused with `e`. -/
def Refused (calls : ℕ → Option Call) (call : Call) (e : InputError) : Prop :=
  ∃ plan', call.request.plan = some plan' ∧ (e = .outcomeUnknown plan'.writeId ∨
      e = .conflict plan'.writeId ∧ ∃ s plan, SameWrite calls s plan call plan' ∧
      fingerprint sha256 plan ≠ fingerprint sha256 plan')

structure Ledger (c : Coordinator) : Prop where
  fresh : ∀ t, c.nextTask ≤ t → c.calls t = none
  epochs : ∀ t call, c.calls t = some call → call.epoch ≤ c.epoch
  mode : ∀ t call m, c.calls t = some call → call.request.mode = some m → call.epoch = c.epoch →
    c.state.mode = some m
  /-- The calls of one epoch are of one mode. -/
  modes : ∀ t u call call', c.calls t = some call → c.calls u = some call' →
    call.epoch = call'.epoch →
    call.request.plan.isSome → call'.request.plan.isSome → call.request.mode = call'.request.mode
  entries : ∀ (id : String) (entry : DedupEntry), c.state.entries[id]? = some entry →
    ∃ first plan, c.calls entry.sender = some first ∧ first.Writes plan ∧ plan.writeId = id ∧
      first.epoch = c.epoch ∧ entry.fingerprint = fingerprint sha256 plan
  watermark : ∀ t namespaceId sequence plan,
    c.calls t = some ⟨.control namespaceId sequence plan, .ok .execute, c.epoch⟩ →
    sequence ≤ c.state.highWatermark
  filter : ∀ t namespaceId plan,
    c.calls t = some ⟨.legacy namespaceId plan, .ok .execute, c.epoch⟩ →
    (∃ entry, c.state.entries[plan.writeId]? = some entry) ∨
      c.state.legacyEvicted.mightContain sha256 plan.writeId
  /-- Control calls that write are admitted in the order of their sequences. -/
  ascending : ∀ t u namespaceId namespaceId' sequence sequence' plan plan' epoch,
    c.calls t = some ⟨.control namespaceId sequence plan, .ok .execute, epoch⟩ →
    c.calls u = some ⟨.control namespaceId' sequence' plan', .ok .execute, epoch⟩ →
    t < u → sequence < sequence'
  /-- Legacy calls that write have different ids. -/
  distinct : ∀ t u namespaceId namespaceId' plan plan' epoch,
    c.calls t = some ⟨.legacy namespaceId plan, .ok .execute, epoch⟩ →
    c.calls u = some ⟨.legacy namespaceId' plan', .ok .execute, epoch⟩ →
    t < u → plan.writeId ≠ plan'.writeId
  joins : ∀ t call s, c.calls t = some call → call.action = .ok (.join s) →
    Joins sha256 c.calls call s
  refused : ∀ t call e, c.calls t = some call → call.action = .error e →
    Refused sha256 c.calls call e

variable {sha256} {c d : Coordinator}

namespace Ledger

variable (h : Ledger sha256 c)
include h

theorem known {t : ℕ} {call : Call} (ht : c.calls t = some call) : t < c.nextTask := by
  by_contra hge
  have hnone := h.fresh t (Nat.le_of_not_lt hge)
  rw [ht] at hnone
  cases hnone

/-- The namespace of a call is selected. -/
theorem opened (r : Request) : Ledger sha256 (c.opened r) := by
  rcases c.opened_cases r with hsame | ⟨hnew, -, hentries, -⟩
  · rw [hsame]
    exact h
  · -- no call is of the new epoch yet
    have hnone : ∀ t call, c.calls t = some call → call.epoch ≠ (c.opened r).epoch := by
      intro t call ht
      have := h.epochs t call ht
      omega
    refine { h with epochs := ?_, mode := ?_, entries := ?_, watermark := ?_, filter := ?_ }
    · intro t call ht
      have := h.epochs t call ht
      omega
    · exact fun t call m ht _ he => absurd he (hnone t call ht)
    · intro id entry he
      have hempty : (c.opened r).state.entries[id]? = none := by
        rw [hentries]
        exact Std.ExtTreeMap.getElem?_empty
      rw [hempty] at he
      cases he
    · exact fun t namespaceId sequence plan ht => absurd rfl (hnone t _ ht)
    · exact fun t namespaceId plan ht => absurd rfl (hnone t _ ht)

end Ledger

/-- `d` has one call more than `c`. -/
structure Recorded (c : Coordinator) (call : Call) (d : Coordinator) : Prop where
  calls : d.calls = Function.update c.calls c.nextTask (some call)
  nextTask : d.nextTask = c.nextTask + 1
  epoch : d.epoch = c.epoch

namespace Recorded

variable {call call' : Call} (hr : Recorded c call d) (h : Ledger sha256 c)
include hr h

theorem old {t : ℕ} (ht : c.calls t = some call') :
    d.calls t = some call' := by
  rw [hr.calls, Function.update_of_ne (Nat.ne_of_lt (h.known ht))]
  exact ht

theorem cases {t : ℕ} (ht : d.calls t = some call') :
    (t = c.nextTask ∧ call' = call) ∨ (t < c.nextTask ∧ c.calls t = some call') := by
  rw [hr.calls] at ht
  by_cases hnew : t = c.nextTask
  · rw [hnew, Function.update_self] at ht
    exact .inl ⟨hnew, (Option.some.inj ht).symm⟩
  · rw [Function.update_of_ne hnew] at ht
    exact .inr ⟨h.known ht, ht⟩

theorem fresh (t : ℕ) (ht : d.nextTask ≤ t) : d.calls t = none := by
  rw [hr.nextTask] at ht
  rw [hr.calls, Function.update_of_ne (by omega)]
  exact h.fresh t (by omega)

theorem epochs (hepoch : call.epoch = c.epoch) (t : ℕ) (call' : Call)
    (ht : d.calls t = some call') : call'.epoch ≤ d.epoch := by
  rw [hr.epoch]
  rcases hr.cases h ht with ⟨-, rfl⟩ | ⟨-, ht⟩
  · exact Nat.le_of_eq hepoch
  · exact h.epochs t call' ht

theorem mode (hmode : d.state.mode = c.state.mode)
    (hnew : ∀ m, call.request.mode = some m → c.state.mode = some m) (t : ℕ) (call' : Call)
    (m : DedupMode) (ht : d.calls t = some call') (hm : call'.request.mode = some m)
    (he : call'.epoch = d.epoch) : d.state.mode = some m := by
  rw [hmode]
  rcases hr.cases h ht with ⟨-, rfl⟩ | ⟨-, ht⟩
  · exact hnew m hm
  · exact h.mode t call' m ht hm (he.trans hr.epoch)

theorem modes (hepoch : call.epoch = c.epoch)
    (hnew : ∀ m, call.request.mode = some m → c.state.mode = some m) (t u : ℕ) (x y : Call)
    (ht : d.calls t = some x) (hu : d.calls u = some y) (he : x.epoch = y.epoch)
    (hx : x.request.plan.isSome) (hy : y.request.plan.isSome) :
    x.request.mode = y.request.mode := by
  -- a call of the current epoch has the mode of the state
  have hcurrent : ∀ {v z}, d.calls v = some z → z.request.plan.isSome → z.epoch = c.epoch →
      z.request.mode = c.state.mode := by
    intro v z hv hz hepoch'
    obtain ⟨m, hm⟩ := mode_of_plan hz
    rw [hm]
    rcases hr.cases h hv with ⟨-, rfl⟩ | ⟨-, hv⟩
    · exact (hnew m hm).symm
    · exact (h.mode v z m hv hm hepoch').symm
  rcases hr.cases h ht with ⟨-, rfl⟩ | ⟨-, ht'⟩
  · rw [hcurrent ht hx hepoch, hcurrent hu hy (he.symm.trans hepoch)]
  · rcases hr.cases h hu with ⟨-, rfl⟩ | ⟨-, hu'⟩
    · rw [hcurrent ht hx (he.trans hepoch), hcurrent hu hy hepoch]
    · exact h.modes t u x y ht' hu' he hx hy

theorem sameWrite {s : ℕ} {plan plan' : InputPlan}
    (hs : SameWrite c.calls s plan call' plan') : SameWrite d.calls s plan call' plan' := by
  obtain ⟨first, hfirst, hrest⟩ := hs.writes
  exact ⟨⟨first, hr.old h hfirst, hrest⟩, hs.repeats, hs.writeId⟩

theorem joins (hnew : ∀ s, call.action = .ok (.join s) → Joins sha256 c.calls call s) (t : ℕ)
    (call' : Call) (s : ℕ) (ht : d.calls t = some call') (hjoin : call'.action = .ok (.join s)) :
    Joins sha256 d.calls call' s := by
  have hfound : Joins sha256 c.calls call' s := by
    rcases hr.cases h ht with ⟨-, rfl⟩ | ⟨-, ht⟩
    · exact hnew s hjoin
    · exact h.joins t call' s ht hjoin
  obtain ⟨plan, plan', hs, heq⟩ := hfound
  exact ⟨plan, plan', hr.sameWrite h hs, heq⟩

theorem refused (hnew : ∀ e, call.action = .error e → Refused sha256 c.calls call e) (t : ℕ)
    (call' : Call) (e : InputError) (ht : d.calls t = some call') (he : call'.action = .error e) :
    Refused sha256 d.calls call' e := by
  have hfound : Refused sha256 c.calls call' e := by
    rcases hr.cases h ht with ⟨-, rfl⟩ | ⟨-, ht⟩
    · exact hnew e he
    · exact h.refused t call' e ht he
  obtain ⟨plan', hplan, hcase⟩ := hfound
  refine ⟨plan', hplan, hcase.imp_right ?_⟩
  rintro ⟨he, s, plan, hs, hne⟩
  exact ⟨he, s, plan, hr.sameWrite h hs, hne⟩

end Recorded

namespace Ledger

variable (h : Ledger sha256 c)
include h

/-- An entry is the entry of an earlier call with the same id. -/
theorem sameWrite {call : Call} {plan' : InputPlan} (hplan : call.request.plan = some plan')
    (hepoch : call.epoch = c.epoch) {entry : DedupEntry}
    (he : c.state.entries[plan'.writeId]? = some entry) :
    ∃ plan, SameWrite c.calls entry.sender plan call plan' ∧
    entry.fingerprint = fingerprint sha256 plan := by
  obtain ⟨first, plan, hfirst, hwrites, hid, hfirstEpoch, hfp⟩ := h.entries _ entry he
  exact ⟨plan, ⟨⟨first, hfirst, hwrites, hfirstEpoch.trans hepoch.symm⟩, hplan, hid⟩, hfp⟩

/-- A call that does not write leaves the state as it is. -/
theorem passed {call : Call} (hr : Recorded c call d) (hepoch : call.epoch = c.epoch)
    (hmode : ∀ m, call.request.mode = some m → c.state.mode = some m)
    (hquiet : ∀ plan, ¬call.Writes plan)
    (hjoins : ∀ s, call.action = .ok (.join s) → Joins sha256 c.calls call s)
    (hrefused : ∀ e, call.action = .error e → Refused sha256 c.calls call e)
    (hstate : d.state = c.state) : Ledger sha256 d := by
  have hold : ∀ {t call'} plan, d.calls t = some call' → call'.Writes plan →
    c.calls t = some call' := by
    intro t call' plan ht hw
    rcases hr.cases h ht with ⟨-, rfl⟩ | ⟨-, ht⟩
    · exact absurd hw (hquiet plan)
    · exact ht
  refine ⟨hr.fresh h, hr.epochs h hepoch, hr.mode h (by rw [hstate]) hmode, hr.modes h hepoch hmode,
    ?_, ?_, ?_, ?_, ?_, hr.joins h hjoins, hr.refused h hrefused⟩
  · intro id entry he
    rw [hstate] at he
    obtain ⟨first, plan, hfirst, hrest⟩ := h.entries id entry he
    rw [hr.epoch]
    exact ⟨first, plan, hr.old h hfirst, hrest⟩
  · intro t namespaceId sequence plan ht
    rw [hr.epoch] at ht
    rw [hstate]
    exact h.watermark t namespaceId sequence plan (hold plan ht ⟨rfl, rfl⟩)
  · intro t namespaceId plan ht
    rw [hr.epoch] at ht
    rw [hstate]
    exact h.filter t namespaceId plan (hold plan ht ⟨rfl, rfl⟩)
  · intro t u namespaceId namespaceId' sequence sequence' plan plan' epoch ht hu hlt
    exact h.ascending t u _ _ _ _ plan plan' epoch (hold plan ht ⟨rfl, rfl⟩)
      (hold plan' hu ⟨rfl, rfl⟩) hlt
  · intro t u namespaceId namespaceId' plan plan' epoch ht hu hlt
    exact h.distinct t u _ _ plan plan' epoch (hold plan ht ⟨rfl, rfl⟩)
      (hold plan' hu ⟨rfl, rfl⟩) hlt

/-- A call that writes gets an entry. -/
theorem wrote {r : Request} {plan : InputPlan} (hplan : r.plan = some plan)
    (hr : Recorded c ⟨r, .ok .execute, c.epoch⟩ d)
    (hmode : ∀ m, r.mode = some m → c.state.mode = some m)
    (hnone : c.state.entries[plan.writeId]? = none) (hfresh : r.expired sha256 c.state = false)
    (hstate : d.state = { r.advanced c.state with
      entries := c.state.entries.insert plan.writeId ⟨fingerprint sha256 plan, c.nextTask⟩ }) :
    Ledger sha256 d := by
  have hsame : d.state.mode = c.state.mode := by
    rw [hstate]
    cases r <;> rfl
  have hfilter : d.state.legacyEvicted = c.state.legacyEvicted := by
    rw [hstate]
    cases r <;> rfl
  have hentries : ∀ id : String, d.state.entries[id]? =
      if plan.writeId = id then some ⟨fingerprint sha256 plan, c.nextTask⟩
        else c.state.entries[id]? := by
    intro id
    rw [hstate]
    simp only [Std.ExtTreeMap.getElem?_insert, Std.LawfulEqCmp.compare_eq_iff_eq]
  have hwatermark : c.state.highWatermark ≤ d.state.highWatermark ∧
      ∀ namespaceId sequence plan, r = .control namespaceId sequence plan →
        c.state.highWatermark < sequence ∧ d.state.highWatermark = sequence := by
    rw [hstate]
    cases r with
    | control namespaceId sequence p =>
      have hlt : c.state.highWatermark < sequence := by simpa [expired] using hfresh
      refine ⟨Nat.le_of_lt hlt, fun namespaceId' sequence' p' he => ?_⟩
      cases he
      exact ⟨hlt, rfl⟩
    | legacy | stream | reply => exact ⟨Nat.le_refl _, fun _ _ _ he => by cases he⟩
  refine ⟨hr.fresh h, hr.epochs h rfl, hr.mode h hsame hmode, hr.modes h rfl hmode, ?_, ?_,
    ?_, ?_, ?_, hr.joins h (fun s he => by cases he), hr.refused h fun e he => by cases he⟩
  · intro id entry he
    rw [hentries] at he
    rw [hr.epoch]
    split at he
    · rename_i hid
      cases he
      refine ⟨⟨r, .ok .execute, c.epoch⟩, plan, ?_, ⟨rfl, hplan⟩, hid, rfl, rfl⟩
      rw [hr.calls]
      exact Function.update_self ..
    · obtain ⟨first, plan', hfirst, hrest⟩ := h.entries id entry he
      exact ⟨first, plan', hr.old h hfirst, hrest⟩
  · intro t namespaceId sequence plan' ht
    rw [hr.epoch] at ht
    rcases hr.cases h ht with ⟨-, he⟩ | ⟨-, ht⟩
    · cases he
      exact Nat.le_of_eq (hwatermark.2 _ _ _ rfl).2.symm
    · exact (h.watermark t namespaceId sequence plan' ht).trans hwatermark.1
  · intro t namespaceId plan' ht
    rw [hr.epoch] at ht
    rw [hfilter, hentries]
    rcases hr.cases h ht with ⟨-, he⟩ | ⟨-, ht⟩
    · cases he
      cases hplan
      rw [if_pos rfl]
      exact .inl ⟨_, rfl⟩
    · refine (h.filter t namespaceId plan' ht).imp_left ?_
      rintro ⟨entry, he⟩
      split
      · exact ⟨_, rfl⟩
      · exact ⟨entry, he⟩
  · intro t u namespaceId namespaceId' sequence sequence' p p' epoch ht hu hlt
    rcases hr.cases h ht with ⟨rfl, -⟩ | ⟨-, ht⟩
    · rcases hr.cases h hu with ⟨rfl, -⟩ | ⟨hu, -⟩ <;> omega
    · rcases hr.cases h hu with ⟨-, he⟩ | ⟨-, hu⟩
      · cases he
        exact Nat.lt_of_le_of_lt (h.watermark t _ _ p ht) (hwatermark.2 _ _ _ rfl).1
      · exact h.ascending t u _ _ _ _ p p' epoch ht hu hlt
  · intro t u namespaceId namespaceId' p p' epoch ht hu hlt
    rcases hr.cases h ht with ⟨rfl, -⟩ | ⟨-, ht⟩
    · rcases hr.cases h hu with ⟨rfl, -⟩ | ⟨hu, -⟩ <;> omega
    · rcases hr.cases h hu with ⟨-, he⟩ | ⟨-, hu⟩
      · cases he
        cases hplan
        intro hid
        rcases h.filter t _ p ht with ⟨entry, he⟩ | hfound
        · rw [hid, hnone] at he
          cases he
        · rw [hid] at hfound
          cases hfresh.symm.trans hfound
      · exact h.distinct t u _ _ p p' epoch ht hu hlt

/-- A call is decided. -/
theorem start (r : Request) : Ledger sha256 (c.start sha256 r) := by
  have ho := h.opened r
  have hr : Recorded (c.opened r) ⟨r, (c.dedupe sha256 r).2, (c.opened r).epoch⟩
    (c.start sha256 r) :=
    ⟨c.calls_start r, rfl, rfl⟩
  have hmode : ∀ m, r.mode = some m → (c.opened r).state.mode = some m :=
    fun m hm => opened_mode hm c.state
  have hstate : (c.start sha256 r).state = (c.dedupe sha256 r).1 := rfl
  cases hplan : r.plan with
  | none =>
    have hdedupe : c.dedupe sha256 r = (c.state, .ok .execute) := by
      cases r with
      | control | legacy => cases hplan
      | stream | reply => rfl
    have hopened : (c.opened r).state = c.state := by
      cases r with
      | control | legacy => cases hplan
      | stream | reply => rfl
    rw [hdedupe] at hr hstate
    refine ho.passed hr rfl hmode ?_ (fun s he => by cases he) (fun e he => by cases he) ?_
    · rintro plan ⟨-, hp⟩
      cases hplan.symm.trans hp
    · rw [hstate, hopened]
  | some plan =>
    have hadmission := c.dedupe_plan sha256 hplan
    generalize c.dedupe sha256 r = decided at hr hstate hadmission
    cases hadmission with
    | conflict he hne =>
      refine ho.passed hr rfl hmode
        (fun p hp => by cases hp.action) (fun s hs => by cases hs) ?_ hstate
      intro e hrefused
      cases hrefused
      obtain ⟨first, hs, hfp⟩ :=
        ho.sameWrite (show (Call.mk r _ _).request.plan = _ from hplan) rfl he
      exact ⟨plan, hplan, .inr ⟨rfl, _, first, hs, hfp ▸ hne⟩⟩
    | join he heq =>
      refine ho.passed hr rfl hmode
        (fun p hp => by cases hp.action) ?_ (fun e hs => by cases hs) hstate
      intro s hjoin
      cases hjoin
      obtain ⟨first, hs, hfp⟩ :=
        ho.sameWrite (show (Call.mk r _ _).request.plan = _ from hplan) rfl he
      exact ⟨first, plan, hs, hfp.symm.trans heq⟩
    | expired hnone hexpired =>
      refine ho.passed hr rfl hmode
        (fun p hp => by cases hp.action) (fun s hs => by cases hs) ?_ hstate
      intro e hrefused
      cases hrefused
      exact ⟨plan, hplan, .inl rfl⟩
    | execute hnone hfresh => exact ho.wrote hplan hr hmode hnone hfresh hstate

/-- A completion takes entries away; in legacy mode the filter keeps their
ids, whichever epoch the completed call was of. -/
theorem trimmed {ids : List String} (htrim : c.state.Trimmed sha256 ids d.state)
    (hcalls : d.calls = c.calls) (hnext : d.nextTask = c.nextTask) (hepoch : d.epoch = c.epoch) :
    Ledger sha256 d := by
  have hsub : ∀ {id : String} {entry}, d.state.entries[id]? = some entry →
    c.state.entries[id]? = some entry := by
    intro id entry he
    rw [htrim.entries] at he
    split at he
    · cases he
    · exact he
  refine ⟨?_, ?_, ?_, ?_, ?_, ?_, ?_, ?_, ?_, ?_, ?_⟩
  all_goals simp only [hcalls, hnext, hepoch, htrim.mode, htrim.highWatermark]
  · exact h.fresh
  · exact h.epochs
  · exact h.mode
  · exact h.modes
  · exact fun id entry he => h.entries id entry (hsub he)
  · exact h.watermark
  · intro t namespaceId plan ht
    have hmode : c.state.mode = some .legacy := h.mode t _ .legacy ht rfl rfl
    rcases h.filter t namespaceId plan ht with ⟨entry, he⟩ | hfound
    · by_cases hout : plan.writeId ∈ ids.take (ids.length - c.state.capacity)
      · exact .inr (htrim.finds hmode _ hout)
      · refine .inl ⟨entry, ?_⟩
        rw [htrim.entries, if_neg hout]
        exact he
    · exact .inr (htrim.keeps _ hfound)
  · exact h.ascending
  · exact h.distinct
  · exact h.joins
  · exact h.refused

theorem step {e : Event} (hstep : c.Step sha256 e d) : Ledger sha256 d := by
  rcases step_cases hstep with ⟨r, -, rfl⟩ | ⟨t, m, task, phase, bytes, -, hmoved⟩
  · exact h.start r
  · rcases completion_cases sha256 t task c.state c.completions with
      ⟨-, plan, -, -, hstate, -⟩ | ⟨hstate, -⟩
    · have htrim : c.state.Trimmed sha256 (c.state.completed ++ [plan.writeId]) d.state := by
        rw [hmoved.state, hstate]
        exact DedupState.trim_spec _ _
      exact h.trimmed htrim hmoved.calls hmoved.nextTask hmoved.epoch
    · have hsame : d.state = c.state := hmoved.state.trans hstate
      refine ⟨?_, ?_, ?_, ?_, ?_, ?_, ?_, ?_, ?_, ?_, ?_⟩
      all_goals simp only [hmoved.calls, hmoved.nextTask, hmoved.epoch, hsame]
      exacts [h.fresh, h.epochs, h.mode, h.modes, h.entries, h.watermark, h.filter, h.ascending,
        h.distinct, h.joins, h.refused]

end Ledger

variable {capacity : ℕ} {stall : Option Duration}

theorem ledger_new (hnew : new capacity stall = .ok c) :
    Ledger sha256 c := by
  unfold new at hnew
  split at hnew
  · cases hnew
  · cases hnew
    refine ⟨fun _ _ => rfl, fun t call h => ?_, fun t call m h => ?_, fun t u call call' h => ?_,
      fun id entry h => ?_, fun t namespaceId sequence plan h => ?_, fun t namespaceId plan h => ?_,
      fun t u _ _ _ _ plan plan' epoch h => ?_, fun t u _ _ plan plan' epoch h => ?_,
      fun t call s h => ?_, fun t call e h => ?_⟩
    case refine_4 => cases h.symm.trans Std.ExtTreeMap.getElem?_empty
    all_goals cases h

variable {tr : List Event}

theorem ledger_run (hrun : CoordinatorRun sha256 capacity stall tr c) : Ledger sha256 c := by
  obtain ⟨start, hnew, hr⟩ := hrun
  exact hr.invariant (ledger_new hnew) fun h hs => h.step hs

/-- A call that was decided was made. -/
theorem called (hrun : CoordinatorRun sha256 capacity stall tr c) :
    ∀ t call, c.calls t = some call → Event.call call.request ∈ tr := by
  obtain ⟨start, hnew, hr⟩ := hrun
  refine hr.history ?_ ?_
  · intro t call ht
    unfold new at hnew
    split at hnew
    · cases hnew
    · cases hnew
      cases ht
  · intro tr c e d _ ih hstep t call ht
    rw [List.mem_append]
    rcases step_cases hstep with ⟨r, rfl, rfl⟩ | ⟨_, _, _, _, _, rfl, hmoved⟩
    · rw [calls_start] at ht
      by_cases hnew : t = c.nextTask
      · rw [hnew, Function.update_self] at ht
        cases ht
        exact .inr List.mem_cons_self
      · rw [Function.update_of_ne hnew] at ht
        exact .inl (ih t call ht)
    · rw [hmoved.calls] at ht
      exact .inl (ih t call ht)

/-! ### Results -/

section Next

variable {stall : Option Duration} {channel : ℕ → Option (Except StoredError WriteReceipt)}
    {r : Request}
  {phase : Phase} {m : Move} {bytes : List UInt8}

variable {result : Except InputError WriteReceipt}

/-- A call that has returned does nothing more. -/
theorem next_of_returned :
    (Phase.returned result).next stall channel r m = none := by
  cases m <;> rfl

/-- A call that joins waits for the channel. -/
theorem next_of_joining {s : ℕ}
    (h : (Phase.joining s).next stall channel r m = some (phase, bytes)) :
    ∃ result, channel s = some result ∧ phase = .returned (joined result) ∧ bytes = [] := by
  cases m with
  | received =>
    obtain ⟨result, hresult, he⟩ := Option.map_eq_some_iff.mp h
    cases he
    exact ⟨result, hresult, rfl, rfl⟩
  | _ => cases h

theorem next_of_sending (h : (Phase.sending result).next stall channel r m = some (phase, bytes)) :
    phase = .returned result ∧ bytes = [] := by
  cases m <;> cases h
  exact ⟨rfl, rfl⟩

/-- No move leads to a join. -/
theorem next_ne_joining {s : ℕ} : phase.next stall channel r m ≠ some (.joining s, bytes) := by
  intro h
  unfold Phase.next at h
  split at h
  all_goals grind [Option.map_eq_some_iff, loop, finish]

/-- A control plan that writes returns after it has sent its result. -/
theorem next_returned (hplan : r.isPlan)
    (hjoin : ∀ s, phase ≠ .joining s)
    (h : phase.next stall channel r m = some (.returned result, bytes)) :
    phase = .sending result := by
  unfold Phase.next at h
  split at h
  all_goals grind [Option.map_eq_some_iff, loop, finish]

end Next

/-- Who has which result. -/
structure Delivered (c : Coordinator) : Prop where
  fresh : ∀ t, c.nextTask ≤ t → c.tasks t = none
  refused : ∀ t task e, c.tasks t = some task → task.action = .error e →
    task.phase = .returned (.error e)
  joining : ∀ t task s, c.tasks t = some task → task.action = .ok (.join s) →
    task.phase = .joining s ∨ ∃ result, c.channel s = some result ∧
    task.phase = .returned (joined result)
  executing : ∀ t task s, c.tasks t = some task → task.action = .ok .execute →
    task.phase ≠ .joining s
  sent : ∀ s result, c.channel s = some result → ∃ first r, c.tasks s = some first ∧
    first.action = .ok .execute ∧ first.phase = .returned r ∧ result = stored r
  finished : ∀ s task r, c.tasks s = some task → task.action = .ok .execute → task.request.isPlan →
    task.phase = .returned r → c.channel s = some (stored r)

namespace Delivered

/-- A call enters without a result, unless it is refused. -/
theorem entry_cases (r : Request) (action : Except InputError Action) :
    match action with
    | .error e => entry r action = .returned (.error e)
    | .ok (.join s) => entry r action = .joining s
    | .ok .execute => (∀ s, entry r action ≠ .joining s) ∧
        (r.isPlan → entry r action = .waitingPlan) := by
  cases action with
  | error e => rfl
  | ok action =>
    cases action with
    | join s => rfl
    | execute =>
      refine ⟨fun s => ?_, fun hplan => if_pos hplan⟩
      simp only [entry, loop, finish]
      split_ifs <;> exact nofun

variable (h : Delivered c)
include h

theorem start (r : Request) : Delivered (c.start sha256 r) := by
  have hentry := entry_cases r (c.dedupe sha256 r).2
  refine ⟨fun t ht => ?_, fun t task e ht ha => ?_, fun t task s ht ha => ?_,
    fun t task s ht ha => ?_, fun s result hs => ?_, fun s task result ht ha hplan hphase => ?_⟩
  · have hlt : c.nextTask < t := ht
    rw [c.start_other r (Nat.ne_of_gt hlt)]
    exact h.fresh t (Nat.le_of_lt hlt)
  · rcases c.start_cases r ht with ⟨rfl, rfl⟩ | ⟨-, ht⟩
    · have haction : (c.dedupe sha256 r).2 = .error e := ha
      simpa [entered, haction] using hentry
    · exact h.refused t task e ht ha
  · rcases c.start_cases r ht with ⟨rfl, rfl⟩ | ⟨-, ht⟩
    · have haction : (c.dedupe sha256 r).2 = .ok (.join s) := ha
      exact .inl (by simpa [entered, haction] using hentry)
    · exact h.joining t task s ht ha
  · rcases c.start_cases r ht with ⟨rfl, rfl⟩ | ⟨-, ht⟩
    · have haction : (c.dedupe sha256 r).2 = .ok .execute := ha
      rw [haction] at hentry
      simpa [entered, haction] using hentry.1 s
    · exact h.executing t task s ht ha
  · obtain ⟨first, result', hfirst, hrest⟩ := h.sent s result hs
    have hne : s ≠ c.nextTask := by
      rintro rfl
      cases hfirst.symm.trans (h.fresh _ (Nat.le_refl _))
    rw [c.start_other r hne]
    exact ⟨first, result', hfirst, hrest⟩
  · rcases c.start_cases r ht with ⟨rfl, rfl⟩ | ⟨-, ht⟩
    · have haction : (c.dedupe sha256 r).2 = .ok .execute := ha
      have hreturned : entry r (c.dedupe sha256 r).2 = .returned result := hphase
      rw [haction] at hentry hreturned
      cases hreturned.symm.trans (hentry.2 hplan)
    · exact h.finished s task result ht ha hplan hphase

/-- A call on its way writes. -/
theorem executes {t : ℕ} {task : Task} (ht : c.tasks t = some task)
    (hjoin : ∀ s, task.phase ≠ .joining s) (hreturned : ∀ {r}, task.phase ≠ .returned r) :
    task.action = .ok .execute := by
  cases ha : task.action with
  | error e => exact absurd (h.refused t task e ht ha) hreturned
  | ok action =>
    cases action with
    | execute => rfl
    | join s =>
      rcases h.joining t task s ht ha with hphase | ⟨_, -, hphase⟩
      · exact absurd hphase (hjoin s)
      · exact absurd hphase hreturned

theorem moved {t : ℕ} {m : Move} {task : Task} {phase : Phase} {bytes : List UInt8}
    (hmoved : c.Moved sha256 t m task phase bytes d) : Delivered d := by
  have hknown : t < c.nextTask := by
    by_contra hge
    cases hmoved.known.symm.trans (h.fresh t (Nat.le_of_not_lt hge))
  -- a result that was sent stays; a task that has returned stays
  have hsent : ∀ {s result}, c.channel s = some result → d.channel s = some result := by
    intro s result hs
    rw [hmoved.channel]
    rcases channelAfter_cases t task c.channel with ⟨r, hsending, he⟩ | he
    · rw [he]
      by_cases hst : s = t
      · obtain ⟨first, r', hfirst, -, hphase, -⟩ := h.sent s result hs
        rw [hst, hmoved.known] at hfirst
        cases hfirst
        cases hphase.symm.trans hsending
      · rw [Function.update_of_ne hst]
        exact hs
    · rw [he]
      exact hs
  have hreturned : ∀ {r}, task.phase ≠ .returned r := by
    intro r hphase
    have hnext := hmoved.next
    rw [hphase, next_of_returned] at hnext
    cases hnext
  refine ⟨fun u hu => ?_, fun u task' e hu ha => ?_, fun u task' s hu ha => ?_,
    fun u task' s hu ha => ?_, fun s result hs => ?_, fun u task' result hu ha hplan hphase => ?_⟩
  · rw [hmoved.nextTask] at hu
    rw [hmoved.tasks_other (Nat.ne_of_gt (Nat.lt_of_lt_of_le hknown hu))]
    exact h.fresh u hu
  · rcases hmoved.cases hu with ⟨rfl, rfl⟩ | ⟨-, hu⟩
    · exact absurd (h.refused u task e hmoved.known ha) hreturned
    · exact h.refused u task' e hu ha
  · rcases hmoved.cases hu with ⟨rfl, rfl⟩ | ⟨-, hu⟩
    · rcases h.joining u task s hmoved.known ha with hphase | ⟨result, -, hphase⟩
      · have hnext := hmoved.next
        rw [hphase] at hnext
        obtain ⟨result, hresult, hafter, -⟩ := next_of_joining hnext
        exact .inr ⟨result, hsent hresult, hafter⟩
      · exact absurd hphase hreturned
    · refine (h.joining u task' s hu ha).imp_right ?_
      rintro ⟨result, hresult, hphase⟩
      exact ⟨result, hsent hresult, hphase⟩
  · rcases hmoved.cases hu with ⟨rfl, rfl⟩ | ⟨-, hu⟩
    · intro hphase
      obtain rfl : phase = .joining s := hphase
      exact next_ne_joining hmoved.next
    · exact h.executing u task' s hu ha
  · have hkept : c.channel s = some result → ∃ first r, d.tasks s = some first ∧
        first.action = .ok .execute ∧ first.phase = .returned r ∧ result = stored r := by
      intro hs
      obtain ⟨first, r, hfirst, ha, hphase, he⟩ := h.sent s result hs
      have hst : s ≠ t := by
        rintro rfl
        rw [hmoved.known] at hfirst
        cases hfirst
        exact hreturned hphase
      rw [hmoved.tasks_other hst]
      exact ⟨first, r, hfirst, ha, hphase, he⟩
    rw [hmoved.channel] at hs
    rcases channelAfter_cases t task c.channel with ⟨r, hsending, he⟩ | he
    · rw [he] at hs
      by_cases hst : s = t
      · subst hst
        rw [Function.update_self] at hs
        have hnext := hmoved.next
        rw [hsending] at hnext
        obtain ⟨rfl, rfl⟩ := next_of_sending hnext
        have haction : task.action = .ok .execute := by
          refine h.executes hmoved.known (fun u hphase => ?_) hreturned
          cases hsending.symm.trans hphase
        exact ⟨_, r, hmoved.tasks_self, haction, rfl, (Option.some.inj hs).symm⟩
      · rw [Function.update_of_ne hst] at hs
        exact hkept hs
    · rw [he] at hs
      exact hkept hs
  · rcases hmoved.cases hu with ⟨rfl, rfl⟩ | ⟨hut, hu⟩
    · obtain rfl : phase = .returned result := hphase
      have hsending :=
        next_returned hplan (fun s => h.executing u task s hmoved.known ha) hmoved.next
      rw [hmoved.channel]
      unfold channelAfter
      rw [hsending]
      exact Function.update_self ..
    · exact hsent (h.finished u task' result hu ha hplan hphase)

theorem step {e : Event} (hstep : c.Step sha256 e d) : Delivered d := by
  rcases step_cases hstep with ⟨r, -, rfl⟩ | ⟨t, m, task, phase, bytes, -, hmoved⟩
  · exact h.start r
  · exact h.moved hmoved

end Delivered

theorem delivered_run (hrun : CoordinatorRun sha256 capacity stall tr c) : Delivered c := by
  obtain ⟨start, hnew, hr⟩ := hrun
  refine hr.invariant ?_ fun h hs => h.step hs
  unfold new at hnew
  split at hnew
  · cases hnew
  · cases hnew
    refine ⟨fun _ _ => rfl, fun t task e h => ?_, fun t task s h => ?_, fun t task s h => ?_,
      fun s result h => ?_, fun s task r h => ?_⟩
    all_goals cases h

end Pohunek.Input
