/-
# Control input is written at most once

Within an epoch a write id is written by one call. A repeat finds the entry
of that call, or the id is under the watermark (monotonic mode) or in the
filter (legacy mode), and then nothing is written. The watermark alone
decides by the sequence, so in monotonic mode the callers must pass the
sequence of the id (`Sequenced`). That a join has the fragments of the first
call, and a conflict different ones, rests on the digest not colliding on the
plans of the run (`CollisionFree`).
-/
import Pohunek.Input.Atomicity

namespace Pohunek.Input

/-! ### Assumptions on the calls of a run -/

def Event.request : Event → Option Request
  | .call request => some request
  | .move _ _ => none

/-- The calls of a run. -/
def requests (tr : List Event) : List Request := tr.filterMap Event.request

/-- The plans of a run. -/
def plans (tr : List Event) : List InputPlan := (requests tr).filterMap Request.plan

/-- A control call passes the sequence that its write id encodes. -/
def Request.Sequenced (sequenceOf : String → ℕ) : Request → Prop
  | .control _ sequence plan => sequence = sequenceOf plan.writeId
  | .legacy _ _ | .stream _ | .reply _ => True

instance (sequenceOf : String → ℕ) : DecidablePred (Request.Sequenced sequenceOf) := fun r => by
  cases r <;> unfold Request.Sequenced <;> infer_instance

def Sequenced (sequenceOf : String → ℕ) (tr : List Event) : Prop := ∀ r ∈ requests tr,
    r.Sequenced sequenceOf

/-- The digest tells the plans of the run apart. -/
def CollisionFree (sha256 : List UInt8 → Digest) (tr : List Event) : Prop :=
  ∀ p ∈ plans tr, ∀ q ∈ plans tr,
    sha256 (fingerprintInput p.fragments) = sha256 (fingerprintInput q.fragments) →
    fingerprintInput p.fragments = fingerprintInput q.fragments

variable {sha256 : List UInt8 → Digest} {sequenceOf : String → ℕ} {c : Coordinator} {capacity : ℕ}
  {stall : Option Duration} {tr : List Event}

theorem mem_requests {r : Request} (h : Event.call r ∈ tr) : r ∈ requests tr :=
  List.mem_filterMap.mpr ⟨_, h, rfl⟩

variable {plan : InputPlan}

theorem mem_plans {r : Request} (h : Event.call r ∈ tr) (hplan : r.plan = some plan) :
    plan ∈ plans tr :=
  List.mem_filterMap.mpr ⟨r, mem_requests h, hplan⟩

theorem CollisionFree.fragments (h : CollisionFree sha256 tr) {p q : InputPlan} (hp : p ∈ plans tr)
    (hq : q ∈ plans tr) (heq : fingerprint sha256 p = fingerprint sha256 q) :
    p.fragments = q.fragments :=
  fingerprintInput_inj (h p hp q hq heq)

/-! ### One call writes -/

variable {t : ℕ}

/-- Two calls of an epoch that write have different ids. -/
theorem Ledger.ids_differ (h : Ledger sha256 c)
    (hsequence : ∀ t call, c.calls t = some call → call.request.Sequenced sequenceOf) {u : ℕ}
    {x y : Call} {plan' : InputPlan} (ht : c.calls t = some x) (hu : c.calls u = some y)
    (hx : x.Writes plan) (hy : y.Writes plan') (he : x.epoch = y.epoch) (hlt : t < u) :
    plan.writeId ≠ plan'.writeId := by
  have hmode := h.modes t u x y ht hu he (by rw [hx.plan]; rfl) (by rw [hy.plan]; rfl)
  have hsx := hsequence t x ht
  have hsy := hsequence u y hu
  obtain ⟨r, action, epoch⟩ := x
  obtain ⟨r', action', epoch'⟩ := y
  obtain rfl : action = .ok .execute := hx.action
  obtain rfl : action' = .ok .execute := hy.action
  obtain rfl : epoch = epoch' := he
  cases r with
  | control namespaceId sequence p =>
    cases r' with
    | control namespaceId' sequence' p' =>
      cases hx.plan
      cases hy.plan
      have hless := h.ascending t u _ _ _ _ _ _ _ ht hu hlt
      intro hid
      rw [show sequence = sequenceOf plan.writeId from hsx,
        show sequence' = sequenceOf plan'.writeId from hsy, hid] at hless
      exact Nat.lt_irrefl _ hless
    | legacy | stream | reply => cases hmode
  | legacy namespaceId p =>
    cases r' with
    | legacy namespaceId' p' =>
      cases hx.plan
      cases hy.plan
      exact h.distinct t u _ _ _ _ _ ht hu hlt
    | control | stream | reply => cases hmode
  | stream | reply => cases hx.plan

/-- The task `t` writes `plan` in the epoch. -/
def Coordinator.Writes (c : Coordinator) (t : ℕ) (plan : InputPlan) (epoch : ℕ) : Prop :=
  ∃ task, c.tasks t = some task ∧ task.action = .ok .execute ∧ task.request.plan = some plan ∧
    task.epoch = epoch

variable {task : Task}

theorem calls_of_tasks (ht : c.tasks t = some task) : c.calls t = some task.call := by
  rw [Coordinator.calls, ht]
  rfl

theorem writes_of_call {call : Call} (ht : c.calls t = some call)
    (hw : call.Writes plan) : c.Writes t plan call.epoch := by
  obtain ⟨task, htask, rfl⟩ := Option.map_eq_some_iff.mp ht
  exact ⟨task, htask, hw.action, hw.plan, rfl⟩

theorem Ledger.once (h : Ledger sha256 c)
    (hsequence : ∀ t call, c.calls t = some call → call.request.Sequenced sequenceOf) {u epoch : ℕ}
    {plan' : InputPlan} (ht : c.Writes t plan epoch) (hu : c.Writes u plan' epoch)
    (hid : plan.writeId = plan'.writeId) : t = u := by
  obtain ⟨task, htask, hx, hplan, rfl⟩ := ht
  obtain ⟨task', htask', hy, hplan', he⟩ := hu
  rcases Nat.lt_trichotomy t u with hlt | heq | hgt
  · exact absurd hid
      (h.ids_differ hsequence (calls_of_tasks htask) (calls_of_tasks htask') ⟨hx, hplan⟩
      ⟨hy, hplan'⟩ he.symm hlt)
  · exact heq
  · exact absurd hid.symm
      (h.ids_differ hsequence (calls_of_tasks htask') (calls_of_tasks htask) ⟨hy, hplan'⟩
      ⟨hx, hplan⟩ he hgt)

/-! ### Every other call -/

/-- How a call goes that does not write: it joins a call that writes the same
plan and returns that call's result; another plan was written under its id;
or the outcome of its id is no longer known. -/
inductive Unwritten (c : Coordinator) (task : Task) (plan : InputPlan) : Prop
  | joined (s : ℕ) (writes : c.Writes s plan task.epoch)
      (result : ∀ result, task.phase = .returned result →
        ∃ first r, c.tasks s = some first ∧ first.phase = .returned r ∧ SameResult r result)
  | conflict (s : ℕ) (plan' : InputPlan) (writes : c.Writes s plan' task.epoch)
      (writeId : plan'.writeId = plan.writeId) (fragments : plan'.fragments ≠ plan.fragments)
      (returned : task.phase = .returned (.error (.conflict plan.writeId)))
  | outcomeUnknown (returned : task.phase = .returned (.error (.outcomeUnknown plan.writeId)))

theorem unwritten (hrun : CoordinatorRun sha256 capacity stall tr c)
    (hcollision : CollisionFree sha256 tr) (ht : c.tasks t = some task)
    (hplan : task.request.plan = some plan) (haction : task.action ≠ .ok .execute) :
    Unwritten c task plan := by
  have hledger := ledger_run hrun
  have hdelivered := delivered_run hrun
  have hmem : plan ∈ plans tr := mem_plans (called hrun t _ (calls_of_tasks ht)) hplan
  have hmem' : ∀ {s first p}, c.calls s = some first → first.Writes p → p ∈ plans tr :=
    fun hs hw => mem_plans (called hrun _ _ hs) hw.plan
  cases ha : task.action with
  | error e =>
    have hreturned := hdelivered.refused t task e ht ha
    obtain ⟨p, hp, hcase⟩ := hledger.refused t _ e (calls_of_tasks ht) ha
    obtain rfl : plan = p := Option.some.inj (hplan.symm.trans hp)
    rcases hcase with rfl | ⟨rfl, s, plan', ⟨⟨first, hs, hw, hepoch⟩, -, hid⟩, hne⟩
    · exact .outcomeUnknown hreturned
    · have hwrites := writes_of_call hs hw
      rw [hepoch] at hwrites
      refine .conflict s plan' hwrites hid (fun heq => hne ?_) hreturned
      unfold fingerprint
      rw [heq]
  | ok action =>
    cases action with
    | execute => exact absurd ha haction
    | join s =>
      obtain ⟨plan', p, ⟨⟨first, hs, hw, hepoch⟩, hp, hid⟩, heq⟩ :=
        hledger.joins t _ s (calls_of_tasks ht) ha
      obtain rfl : plan = p := Option.some.inj (hplan.symm.trans hp)
      have hwrites := writes_of_call hs hw
      have hsame : plan' = plan := by
        have hfragments := hcollision.fragments (hmem' hs hw) hmem heq
        cases plan'
        cases plan
        simp_all
      rw [hepoch, hsame] at hwrites
      refine .joined s hwrites fun result hphase => ?_
      obtain ⟨first', r, hfirst, -, hreturned, hresult⟩ :=
        (sound_run hrun).joined hdelivered ht ha hphase
      exact ⟨first', r, hfirst, hreturned, hresult⟩

/-- A call that does not write leaves no byte in the terminal. -/
theorem Sound.unwritten_nil (h : Sound c) (ht : c.tasks t = some task)
    (haction : task.action ≠ .ok .execute) : c.contribution t = [] := by
  have haccount := h.accounted t task ht
  unfold Task.Accounted at haccount
  split at haccount
  · rename_i ha
    exact absurd ha haction
  · exact haccount.1

/-- **At-most-once control input.** In every run, within an epoch at most one
call writes a write id; every other call with the id leaves no byte in the
terminal and returns the result of the call that writes, `Conflict` when its
fragments differ from the written ones, or `OutcomeUnknown`; and in monotonic
mode the calls that write are admitted in the order of their sequences. -/
theorem control_input_at_most_once (hrun : CoordinatorRun sha256 capacity stall tr c)
    (hsequence : Sequenced sequenceOf tr) (hcollision : CollisionFree sha256 tr) :
    (∀ t u plan plan' epoch, c.Writes t plan epoch → c.Writes u plan' epoch →
      plan.writeId = plan'.writeId → t = u) ∧
    (∀ t task plan, c.tasks t = some task → task.request.plan = some plan →
      task.action ≠ .ok .execute → c.contribution t = [] ∧ Unwritten c task plan) ∧
    ∀ t u task task' namespaceId namespaceId' sequence sequence' plan plan', c.tasks t = some task →
      c.tasks u = some task' → task.request = .control namespaceId sequence plan →
      task'.request = .control namespaceId' sequence' plan' → task.action = .ok .execute →
      task'.action = .ok .execute → task.epoch = task'.epoch → t < u → sequence < sequence' := by
  have hledger := ledger_run hrun
  have hcalls : ∀ v call, c.calls v = some call → call.request.Sequenced sequenceOf :=
    fun v call hv => hsequence _ (mem_requests (called hrun v call hv))
  refine ⟨fun t u plan plan' epoch ht hu hid => hledger.once hcalls ht hu hid, ?_, ?_⟩
  · intro t task plan ht hplan ha
    exact ⟨(sound_run hrun).unwritten_nil ht ha, unwritten hrun hcollision ht hplan ha⟩
  · intro t u task task' namespaceId namespaceId' sequence sequence' plan plan' ht hu hr hr'
      ha ha' he hlt
    refine hledger.ascending t u namespaceId namespaceId' sequence sequence' plan plan'
      task.epoch ?_ ?_ hlt
    · rw [calls_of_tasks ht, Task.call, hr, ha]
    · rw [calls_of_tasks hu, Task.call, hr', ha', he]

/-! ### A run in both modes -/

/-- The moves of a task whose writer accepts every fragment whole. -/
def sampleWrite (t : ℕ) (sizes : List ℕ) : List Event :=
  let fragment (size : ℕ) : List Event :=
    [.move t .executionLocked, .move t (.writerLocked 0), .move t (.accepted size),
      .move t (.flushed none), .move t .resumed, .move t .woke]
  .flatten [[.move t .planLocked], sizes.flatMap fragment, [.move t .completed, .move t .sent]]

/-- The number behind the last dash of a write id. -/
def sampleSequence (writeId : String) : ℕ :=
  (writeId.toList.reverse.takeWhile (· ≠ '-')).foldr
    (fun digit value => 10 * value + (digit.toNat - 48)) 0

/-- A write that is joined, contradicted and, evicted by a second one, no
longer known; then the same in legacy mode. -/
def sampleRepeats : List Event :=
  .flatten [
    [.call (.control "a" 1 ⟨"input-a-1", sampleTwo⟩),
    .call (.control "a" 1 ⟨"input-a-1", sampleTwo⟩),
      .call (.control "a" 1 ⟨"input-a-1", sampleOne⟩)], sampleWrite 0 [2, 1],
    [.move 1 .received, .call (.control "a" 2 ⟨"input-a-2", sampleOne⟩)], sampleWrite 3 [2],
    [.call (.control "a" 1 ⟨"input-a-1", sampleTwo⟩), .call (.legacy "d" ⟨"input-1", sampleTwo⟩)],
    sampleWrite 5 [2, 1], [.call (.legacy "d" ⟨"input-2", sampleOne⟩)], sampleWrite 6 [2],
    [.call (.legacy "d" ⟨"input-1", sampleTwo⟩)]]

/-- The actions of the calls of `sampleRepeats`. -/
def sampleActions : List (Except InputError Action) :=
  [.ok .execute, .ok (.join 0), .error (.conflict "input-a-1"), .ok .execute,
    .error (.outcomeUnknown "input-a-1"),
    .ok .execute, .ok .execute, .error (.outcomeUnknown "input-1")]

theorem control_input_at_most_once_both_modes :
    ∃ c, CoordinatorRun sampleSha256 1 none sampleRepeats c ∧
      Sequenced sampleSequence sampleRepeats ∧ CollisionFree sampleSha256 sampleRepeats ∧
      (List.range 8).map (fun t => (c.tasks t).map (·.action)) = sampleActions.map some ∧
      ∀ t u plan plan' epoch, c.Writes t plan epoch → c.Writes u plan' epoch →
        plan.writeId = plan'.writeId → t = u := by
  have hrun : CoordinatorRun sampleSha256 1 none sampleRepeats _ :=
    Coordinator.play_run (Option.some_get (by decide +kernel)).symm
  have hsequence : Sequenced sampleSequence sampleRepeats := by
    unfold Sequenced
    decide +kernel
  have hcollision : CollisionFree sampleSha256 sampleRepeats := by
    unfold CollisionFree
    decide +kernel
  exact ⟨_, hrun, hsequence, hcollision, by decide +kernel,
    (control_input_at_most_once hrun hsequence hcollision).1⟩

end Pohunek.Input
