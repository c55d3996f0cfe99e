/-
# What stale writers cannot undo

Writers hold copies of a session's record of any age. Whatever their order:

* the marks of the stored native identity do not decrease, and a writer that
  is behind them does not replace the identity (`native_identity_never_back`);
* the runtime generation does not decrease, and within a generation the worker
  instance stays (`runtime_never_back`);
* initial input that is settled stays so (`initial_input_stays_settled`);
* a terminal record is not stored next to a resume binding of its session, as
  long as no binding is recorded for a session that has ended
  (`terminal_apart`). `record_resume` does not ask whether it has.
-/
import Pohunek.Metadata.Durable

namespace Pohunek.Metadata

open Keyed Runs List Option SessionRecord Records

variable {S : Serde} {file : Option Text} {earlier later : List Event} {s t : System}
    {sessionId : String}

/-! ### Events about a session -/

/-- The event writes a record of the session. -/
def Writes (sessionId : String) (event : Event) (record : SessionRecord) : Prop :=
  ∃ mutation body, event.answer = .wrote (.mutate mutation) body ∧
    mutation.sessionWrite = some record ∧ record.sessionId = sessionId

/-- The event does not remove the session. -/
def Keeping (sessionId : String) (event : Event) : Prop :=
  ∀ body, event.answer ≠ .wrote (.mutate (.removeSession sessionId)) body

/-- The record of a session write that was committed. -/
def Output.sessionWrite : Output → Option SessionRecord
  | .wrote (.mutate mutation) _ => mutation.sessionWrite
  | _ => none

variable {event : Event} {record : SessionRecord}

theorem writes_iff :
    Writes sessionId event record ↔ event.answer.sessionWrite = some record ∧
    record.sessionId = sessionId := by
  constructor
  · rintro ⟨mutation, body, hanswer, hwrite, hid⟩
    rw [hanswer]
    exact ⟨hwrite, hid⟩
  · rintro ⟨hwrite, hid⟩
    unfold Output.sessionWrite at hwrite
    split at hwrite
    · rename_i mutation body hanswer
      exact ⟨mutation, body, hanswer, hwrite, hid⟩
    · cases hwrite

/-- The session of a removal that was committed. -/
def Output.sessionRemoval : Output → Option String
  | .wrote (.mutate (.removeSession sessionId)) _ => some sessionId
  | _ => none

theorem keeping_of_removal (h : event.answer.sessionRemoval = none) : Keeping sessionId event := by
  intro body hanswer
  rw [hanswer] at h
  cases h

variable {existing : SessionRecord} (hS : S.Lawful)
    (hrun : Run (StepOf (step S)) (.init file) earlier s)
  (hlater : Run (StepOf (step S)) s later t) (hlocal : Local (earlier ++ later))
  (hkeeping : ∀ event ∈ later, Keeping sessionId event)

include hS hrun in
/-- **One event, seen from the record of a session**: it says the same as
before, or a record was written. -/
theorem session_step (hstep : StepOf (step S) s event t) (hlocal : Local (earlier ++ [event]))
    (hkeeping : Keeping sessionId event)
    (hexisting : durable S s.shared.file sessionId = some existing) :
    ∃ new, durable S t.shared.file sessionId = some new ∧
      ((SameSession existing new ∧ ∀ record, ¬ Writes sessionId event record) ∨
        ∃ record, Writes sessionId event record ∧ staleRuntimeSnapshot existing record = false ∧
          SameSession (mergeSession existing record) new) := by
  rcases (committed_of_step hS hrun hstep hlocal).session sessionId with
    ⟨hquiet, hrel⟩ | ⟨mutation, body, hanswer, hchange⟩
  · rw [hexisting] at hrel
    generalize durable S t.shared.file sessionId = after at hrel
    cases hrel with
    | some hsame =>
      refine ⟨_, rfl, .inl ⟨hsame, ?_⟩⟩
      rintro record ⟨mutation, body, hanswer, -⟩
      exact hquiet mutation body hanswer
  · rw [hexisting] at hchange
    generalize durable S t.shared.file sessionId = after at hchange
    cases hchange with
    | same hother hrel =>
      cases hrel with
      | some hsame =>
        refine ⟨_, rfl, .inl ⟨hsame, ?_⟩⟩
        rintro record ⟨mutation', body', hanswer', hwrite, hid⟩
        rw [hanswer] at hanswer'
        obtain ⟨hmutation, -⟩ := Output.wrote.inj hanswer'
        obtain rfl := Call.mutate.inj hmutation
        exact hother record hwrite hid
    | merged record _ new hwrite hid hfresh hnew =>
      exact ⟨new, rfl, .inr ⟨record, ⟨mutation, body, hanswer, hwrite, hid⟩, hfresh, hnew⟩⟩
    | removed _ hmutation =>
      subst hmutation
      exact absurd hanswer (hkeeping body)

include hS hrun in
/-- A record that is written is merged into the one that is there. -/
theorem session_written (hstep : StepOf (step S) s event t) (hlocal : Local earlier)
    (hwrites : Writes sessionId event record)
    (hexisting : durable S s.shared.file sessionId = some existing) :
    ∃ new, durable S t.shared.file sessionId = some new ∧ SameSession
    (mergeSession existing record) new := by
  obtain ⟨mutation, body, hanswer, hwrite, -⟩ := id hwrites
  have hlocal' : Local (earlier ++ [event]) := by
    intro e he content hcall
    rcases mem_append.mp he with he | he
    · exact hlocal e he content hcall
    · obtain rfl := mem_singleton.mp he
      obtain ⟨call, answer⟩ := e
      subst hcall hanswer
      cases hstep
  have hkeeping : Keeping sessionId event := by
    intro body' hanswer'
    rw [hanswer] at hanswer'
    rw [Call.mutate.inj (Output.wrote.inj hanswer').1] at hwrite
    cases hwrite
  obtain ⟨new, hnew, ⟨-, hnone⟩ | ⟨record', hwrites', -, hmerged⟩⟩ :=
    session_step hS hrun hstep hlocal' hkeeping hexisting
  · exact absurd hwrites (hnone record)
  · cases (writes_iff.mp hwrites).1.symm.trans (writes_iff.mp hwrites').1
    exact ⟨new, hnew, hmerged⟩

include hS hrun hlater hlocal hkeeping in
/-- **A whole run, seen from the record of a session.** What each event keeps
of the record that is there, the run keeps. -/
theorem session_run {I : SessionRecord → Prop}
    (hsame : ∀ old new, SameSession old new → I old → I new)
    (hmerge : ∀ event ∈ later, ∀ record existing, Writes sessionId event record →
      staleRuntimeSnapshot existing record = false → I existing → I (mergeSession existing record))
    (hexisting : durable S s.shared.file sessionId = some existing) (hI : I existing) :
    ∃ new, durable S t.shared.file sessionId = some new ∧ I new := by
  refine hlater.history (I := fun passed moment => (∀ event ∈ passed, event ∈ later) →
    ∃ new, durable S moment.shared.file sessionId = some new ∧ I new) ?_ ?_ fun _ hevent => hevent
  · exact fun _ => ⟨existing, hexisting, hI⟩
  · intro passed moment event after hpassed ih hstep hall
    obtain ⟨hbefore, hevent⟩ := forall_mem_append.mp hall
    have hevent := hevent event (mem_singleton.mpr rfl)
    obtain ⟨current, hcurrent, hIcurrent⟩ := ih hbefore
    have hlocal' : Local ((earlier ++ passed) ++ [event]) := by
      intro e he
      rw [append_assoc] at he
      rcases mem_append.mp he with he | he
      · exact hlocal e (mem_append_left _ he)
      · exact hlocal e (mem_append_right _ (hall e he))
    obtain ⟨new, hnew, h | ⟨record, hwrites, hfresh, hmerged⟩⟩ :=
      session_step hS (hrun.append hpassed) hstep hlocal' (hkeeping event hevent) hcurrent
    · exact ⟨new, hnew, hsame _ _ h.1 hIcurrent⟩
    · exact ⟨new, hnew,
        hsame _ _ hmerged (hmerge event hevent record current hwrites hfresh hIcurrent)⟩

/-- A run of computed steps and the step after it, where no session is removed
and every record written satisfies `q`. -/
theorem run_of_exec (S : Serde) (file : Option Text) (sessionId : String) (calls : List Input)
    (last : Input) (q : SessionRecord → Bool) (p : Output → Bool)
    (h : ((execAll (step S) (.init file) (calls ++ [last])).any fun r =>
      r.2.all (fun event => event.answer.sessionRemoval.isNone &&
        event.answer.sessionWrite.all q) &&
      r.2.getLast?.any fun event => p event.answer) = true)
    (hcalls : calls.any Input.isReplace = false) :
    ∃ later t answer u, Run (StepOf (step S)) (.init file) later t ∧ StepOf
    (step S) t ⟨last, answer⟩ u ∧
      Local later ∧ (∀ event ∈ later, Keeping sessionId event) ∧
      (∀ event ∈ later, ∀ record, Writes sessionId event record → q record) ∧ p answer := by
  obtain ⟨trace, u, hrun, hmap, hcheck⟩ := execAll_any _ h
  obtain ⟨later, rest, rfl, hlater, hlast⟩ := map_eq_append_iff.mp hmap
  obtain ⟨⟨call, answer⟩, rfl, rfl⟩ := map_eq_singleton_iff.mp hlast
  obtain ⟨t, hrun, hstep⟩ := hrun.snoc_inv
  obtain ⟨hevents, hanswer⟩ := Bool.and_eq_true_iff.mp hcheck
  rw [getLast?_concat] at hanswer
  have hevents := fun event hevent =>
    Bool.and_eq_true_iff.mp (all_eq_true.mp hevents event (mem_append_left _ hevent))
  refine ⟨later, t, answer, u, hrun, hstep, local_of_calls hlater hcalls, ?_, ?_, hanswer⟩
  · exact fun event hevent => keeping_of_removal (isNone_iff_eq_none.mp (hevents event hevent).1)
  · intro event hevent record hwrites
    have hall := (hevents event hevent).2
    rw [(writes_iff.mp hwrites).1] at hall
    exact hall

/-! ### The runtime generation -/

def SessionRecord.generation (record : SessionRecord) :
    Option ℕ := record.info.runtime.map (·.runtimeGeneration)

/-- The record has reached a generation, and within it the worker instance. -/
def Reached (generation : ℕ) (worker : Option String) (record : SessionRecord) : Prop :=
  ∃ current, record.generation = some current ∧ generation ≤ current ∧
    (current = generation → ∀ instanceId, worker = some instanceId →
      record.workerInstanceId = some instanceId)

variable {generation : ℕ}

theorem reached_self (h : record.generation = some generation) :
    Reached generation record.workerInstanceId record :=
  ⟨generation, h, le_rfl, fun _ _ hinstance => hinstance⟩

variable {old new : SessionRecord}

theorem Reached.same {worker : Option String} (hsame : SameSession old new)
    (h : Reached generation worker old) : Reached generation worker new := by
  obtain ⟨current, hcurrent, hle, hworker⟩ := h
  refine ⟨current, hsame.generation.trans hcurrent, hle, ?_⟩
  rw [hsame.worker]
  exact hworker

theorem SessionRecord.SameRuntime.worker {merged : SessionRecord} (h : merged.SameRuntime record) :
    merged.workerInstanceId = record.workerInstanceId := by
  rw [workerInstanceId, h.runtime, h.snapshot]
  rfl

/-- What a write that is not stale keeps. -/
theorem reached_merge {worker : Option String}
    (hruntime : record.info.runtime.isSome) (hfresh : staleRuntimeSnapshot existing record = false)
    (h : Reached generation worker existing) : Reached generation worker
      (mergeSession existing record) := by
  obtain ⟨current, hcurrent, hle, hworker⟩ := h
  obtain ⟨candidate, hcandidate⟩ := isSome_iff_exists.mp hruntime
  obtain ⟨stored, hstored, rfl⟩ := map_eq_some_iff.mp hcurrent
  have hmerged := mergeSession_runtime existing record
  refine ⟨candidate.runtimeGeneration,
      by rw [SessionRecord.generation, hmerged.snapshot, hcandidate]; rfl, ?_⟩
  rw [hmerged.worker]
  rw [staleRuntimeSnapshot, hstored, hcandidate] at hfresh
  dsimp only at hfresh
  split at hfresh
  · cases hfresh
  · split at hfresh
    · exact ⟨by omega, fun heq => by omega⟩
    · -- the same generation: the worker instance is the stored one
      refine ⟨by omega, fun heq instanceId hinstance => ?_⟩
      have hstoredWorker := hworker (by omega) instanceId hinstance
      rw [hstoredWorker] at hfresh
      simpa using hfresh

variable {answer : Answer}

theorem removal_answer {kept before : ℕ} {changed next : Records} {removed unchanged : Answer}
    (h : removal kept before changed removed unchanged = .rewrite next answer) :
    answer = removed := by
  unfold removal at h
  split at h
  · cases h
  · exact (Plan.rewrite.inj h).2.symm

/-- The answers of writes that were refused. -/
def Answer.refused (answer : Answer) : Bool := answer = .staleRuntime ∨ answer = .staleSnapshot

def Output.refused : Output → Bool
  | .answered answer _ => answer.refused
  | _ => false

variable {records : Records}

theorem Mutation.plan_answer {mutation : Mutation} {next : Records}
    (h : mutation.plan records = .rewrite next answer) : answer.refused = false := by
  cases mutation with
  | recordSession record =>
    revert h
    simp only [Mutation.plan]
    fun_cases Metadata.recordSession record records <;> rintro ⟨⟩ <;> rfl
  | recordSessionIfCurrent expected record =>
    revert h
    simp only [Mutation.plan]
    fun_cases Metadata.recordSessionIfCurrent expected record records <;> rintro ⟨⟩
    rfl
  | clearInitialInput | replaceSessionMetadata | mutateProject =>
    simp only [Mutation.plan, Metadata.clearInitialInput, Metadata.replaceSessionMetadata,
      Metadata.mutateProject] at h
    split at h
    · cases h
    · rw [← (Plan.rewrite.inj h).2]
      rfl
  | removeSession | removeResume | removeWorktreeSession | removeWorktreeBinding | removeProject =>
    rw [removal_answer h]
    rfl
  | recordResume | recordWorktree | recordProject =>
    rw [← (Plan.rewrite.inj h).2]
    rfl

/-- What a thread that wrote will answer. -/
def Phase.Answering : Phase → Prop
  | .committed _ _ _ answer _ => answer.refused = false
  | _ => True

include hrun in
theorem answering_of_run (thread : ℕ) :
    (s.phases thread).Answering := by
  refine hrun.invariant ?_ ?_ thread
  · exact fun _ => trivial
  · intro s event t hall hstep thread
    cases StepOf.moves hstep with
    | act actor action output phase shared writeLock hadvances =>
      by_cases hactor : thread = actor
      · subst hactor
        have hphase : phase.Answering := by
          generalize s.phases thread = before at hadvances
          cases hadvances with
          | write _ _ _ _ _ _ _ _ _ hplan => exact Mutation.plan_answer hplan
          | load _ _ _ _ _ _ _ hto => rcases hto with ⟨-, rfl⟩ | ⟨mutation, -, rfl⟩ <;> trivial
          | start | clone | read | stop | setAside | remember => trivial
        simpa using hphase
      · simpa [Function.update_of_ne hactor] using hall thread
    | replace content => exact hall thread

include hrun in
/-- **A refused write changes nothing**: the file is what it was since the
call began, and the memo stays. -/
theorem refused_unchanged (hlocal : Local earlier) {thread : ℕ}
    {action : Action} {synced : Bool} (hrefused : answer.refused)
    (hstep : StepOf (step S) s ⟨.act thread action, .answered answer synced⟩ t) :
    t.shared = s.shared ∧ ∀ content ∈ (watch thread file earlier).since,
    content = t.shared.file := by
  obtain ⟨htracks, -⟩ := tracks_of_run thread hrun
  have hanswering := answering_of_run hrun thread
  have hown := htracks.own (watch_local hlocal)
  rw [htracks.file] at hown
  cases StepOf.moves hstep with
  | act _ _ _ phase shared writeLock hadvances =>
    generalize s.phases thread = before at hadvances hanswering hown
    cases hadvances with
    | stop _ _ _ hpending _ houtput =>
      rcases houtput with ⟨error, h⟩ | ⟨hguarded, -⟩
      · cases h
      · exact ⟨rfl, hown hguarded hpending⟩
    | remember => exact absurd (hrefused.symm.trans hanswering) (by decide)

include hS hrun hlater hlocal hkeeping in
/-- **The runtime generation never goes back**, and within a generation the
worker instance stays. -/
theorem runtime_never_back
    (hruntime : ∀ event ∈ later, ∀ record, Writes sessionId event record →
      record.info.runtime.isSome) :
    (∀ existing generation, durable S s.shared.file sessionId = some existing →
      existing.generation = some generation → ∃ new current,
      durable S t.shared.file sessionId = some new ∧
        new.generation = some current ∧ generation ≤ current ∧
        (current = generation → ∀ instanceId, existing.workerInstanceId = some instanceId →
          new.workerInstanceId = some instanceId)) ∧
    ∀ thread action answer synced u, answer.refused →
      StepOf (step S) t ⟨.act thread action, .answered answer synced⟩ u →
      u.shared = t.shared ∧ ∀ content ∈ (watch thread file (earlier ++ later)).since,
      content = u.shared.file := by
  refine ⟨fun existing generation hexisting hgeneration => ?_,
    fun thread action answer synced u hrefused hstep => ?_⟩
  · obtain ⟨new, hnew, current, hcurrent, hle, hworker⟩ :=
      session_run hS hrun hlater hlocal hkeeping (fun _ _ => Reached.same)
      (fun event hevent record _ hwrites hfresh => reached_merge
        (hruntime event hevent record hwrites) hfresh)
      hexisting (reached_self hgeneration)
    exact ⟨new, current, hnew, hcurrent, hle, hworker⟩
  · exact refused_unchanged (hrun.append hlater) hlocal hrefused hstep

/-- A write of generation 1, and after it one of generation 0. -/
theorem runtime_never_back_sample : ∃ later t event u current new,
    Run (StepOf (step (.ofTable sampleTable)))
    (.init (some (sampleFile [.session (sampleSession .running)]))) later t ∧
      StepOf (step (.ofTable sampleTable)) t event u ∧
      durable (.ofTable sampleTable) t.shared.file "s1" = some new ∧ new.generation = some current ∧
      1 ≤ current ∧ (current = 1 → new.workerInstanceId = some "w1") ∧ u.shared = t.shared := by
  let stale : SessionRecord := { sampleSession .running with
    info := { (sampleSession .running).info with runtime := some ⟨0, some "w0", []⟩ } }
  obtain ⟨later, t, answer, u, hlater, hstep, hlocal, hkeeping, hwrites, hanswer⟩ := run_of_exec
    (.ofTable sampleTable) (some (sampleFile [.session (sampleSession .running)])) "s1"
    (mutating 0 (.recordSession (sampleSession .done)) ++
    (mutating 1 (.recordSession stale)).take 4)
    (.act 1 (.write none (.committed true))) (·.info.runtime.isSome) Output.refused
    (by decide +kernel) (by decide +kernel)
  obtain ⟨hkept, hunchanged⟩ :=
    runtime_never_back sampleTable_lawful (.refl _) hlater hlocal hkeeping hwrites
  obtain ⟨new, current, hnew, hcurrent, hle, hworker⟩ := hkept (sampleSession .running) 1
    (show durable (.ofTable sampleTable)
    (some (sampleFile [.session (sampleSession .running)])) "s1" = _ by decide +kernel) rfl
  cases answer with
  | answered answer synced =>
    refine ⟨later, t, _, u, current, new, hlater, hstep, hnew, hcurrent, hle,
      fun heq => hworker heq "w1" rfl, ?_⟩
    exact (hunchanged 1 _ answer synced u hanswer hstep).1
  | silent | snapshot | failed | wrote => cases hanswer

/-! ### The native identity -/

theorem keepInitialInputSettled_eq (existing replacement : SessionRecord) :
    ∃ transaction,
    keepInitialInputSettled existing replacement = { replacement with transaction } := by
  unfold keepInitialInputSettled
  dsimp only
  split
  · exact ⟨none, rfl⟩
  · exact ⟨replacement.transaction, rfl⟩

/-- The marks are those of the worker, and not below the given ones. -/
def Marked (ordering : NativeIdentityOrdering) (record : SessionRecord) : Prop :=
  ∃ current, record.nativeIdentityOrdering = some current ∧
    current.workerInstanceId = ordering.workerInstanceId ∧
    ordering.sequence ≤ current.sequence ∧ ordering.workerSequence ≤ current.workerSequence

theorem Marked.trans {a b : NativeIdentityOrdering}
    (hworker : b.workerInstanceId = a.workerInstanceId) (hsequence : a.sequence ≤ b.sequence)
    (hworkerSequence : a.workerSequence ≤ b.workerSequence) (h : Marked b record) :
    Marked a record := by
  obtain ⟨current, hcurrent, hname, hle, hle'⟩ := h
  exact ⟨current, hcurrent, hname.trans hworker, hsequence.trans hle, hworkerSequence.trans hle'⟩

variable {ordering : NativeIdentityOrdering}

theorem Marked.same (hsame : SameSession old new)
    (h : Marked ordering old) : Marked ordering new := by
  obtain ⟨marks, hmarks, hrest⟩ := h
  exact ⟨marks, hsame.ordering.trans hmarks, hrest⟩

/-- **A merge does not lower the marks.** -/
theorem marked_merge (hordering : existing.nativeIdentityOrdering = some ordering)
    (hworker : record.runtime.workerInstanceId = some ordering.workerInstanceId) :
    Marked ordering (mergeSession existing record) := by
  obtain ⟨transaction, htransaction⟩ :=
    keepInitialInputSettled_eq existing (preserveNewerNativeIdentity existing record)
  rw [mergeSession, htransaction]
  have hpreserved : Marked ordering (preserveNewerNativeIdentity existing record) := by
    unfold preserveNewerNativeIdentity
    rw [hordering]
    dsimp only
    rw [if_neg (not_not.mpr hworker)]
    split
    · rename_i candidate hcandidate
      have hname : candidate.workerInstanceId = ordering.workerInstanceId := by
        simpa using (filter_eq_some_iff.mp hcandidate).2
      split
      · exact ⟨_, rfl, hname, le_max_right _ _, le_max_right _ _⟩
      · split
        · exact ⟨ordering, rfl, rfl, le_rfl, le_rfl⟩
        · exact ⟨ordering, rfl, rfl, le_rfl, le_rfl⟩
    · exact ⟨ordering, rfl, rfl, le_rfl, le_rfl⟩
  exact hpreserved

/-- The writer is ahead of the stored ordering in no mark and behind in one;
without marks of this worker it is behind. -/
def Behind (record : SessionRecord) (ordering : NativeIdentityOrdering) : Prop :=
  ∀ candidate, record.nativeIdentityOrdering = some candidate →
    candidate.workerInstanceId = ordering.workerInstanceId →
    candidate.sequence ≤ ordering.sequence ∧ candidate.workerSequence ≤ ordering.workerSequence ∧
      (candidate.sequence < ordering.sequence ∨ candidate.workerSequence < ordering.workerSequence)

/-- The native identity of a record, with the reference to recover from. -/
structure SameIdentity (old new : SessionRecord) : Prop where
  nativeSessionId : new.info.nativeSessionId = old.info.nativeSessionId
  nativeSessionPath : new.info.nativeSessionPath = old.info.nativeSessionPath
  reference : ∀ reference, old.recovery.map (·.reference) = some reference →
    new.recovery.map (·.reference) = some reference

theorem preserveNativeIdentity_same (existing replacement : SessionRecord) :
    SameIdentity existing (preserveNativeIdentity existing replacement) := by
  refine ⟨rfl, rfl, fun reference hreference => ?_⟩
  obtain ⟨stored, hstored, rfl⟩ := map_eq_some_iff.mp hreference
  rw [preserveNativeIdentity, hstored]
  cases replacement.recovery <;> rfl

/-- **A writer that is behind does not replace the identity.** -/
theorem identity_merge (hordering : existing.nativeIdentityOrdering = some ordering)
    (hworker : record.runtime.workerInstanceId = some ordering.workerInstanceId)
    (hbehind : Behind record ordering) : SameIdentity existing (mergeSession existing record) := by
  obtain ⟨transaction, htransaction⟩ :=
    keepInitialInputSettled_eq existing (preserveNewerNativeIdentity existing record)
  have hpreserved : SameIdentity existing (preserveNewerNativeIdentity existing record) := by
    unfold preserveNewerNativeIdentity
    rw [hordering]
    dsimp only
    rw [if_neg (not_not.mpr hworker)]
    split
    · rename_i candidate hcandidate
      obtain ⟨hsome, hname⟩ := filter_eq_some_iff.mp hcandidate
      obtain ⟨hle, hle', hlt⟩ := hbehind candidate hsome (of_decide_eq_true hname)
      have hnotAhead : candidate.isAheadOf ordering = false := by
        simp [NativeIdentityOrdering.isAheadOf, hle.not_gt, hle'.not_gt]
      have hahead : ordering.isAheadOf candidate := by
        simpa [NativeIdentityOrdering.isAheadOf] using hlt
      rw [hnotAhead, hahead, if_neg Bool.false_ne_true, if_pos rfl]
      exact preserveNativeIdentity_same _ _
    · exact preserveNativeIdentity_same _ _
  rw [mergeSession, htransaction]
  exact ⟨hpreserved.nativeSessionId, hpreserved.nativeSessionPath, hpreserved.reference⟩

include hS hrun hlater hlocal hkeeping in
/-- **The native identity never goes back.** While the writers name the worker
instance of the stored marks, the marks do not decrease, and a writer behind
them leaves the identity as it is. -/
theorem native_identity_never_back {existing : SessionRecord} {ordering : NativeIdentityOrdering}
    (hexisting : durable S s.shared.file sessionId = some existing)
    (hordering : existing.nativeIdentityOrdering = some ordering)
    (hworker : ∀ event ∈ later, ∀ record, Writes sessionId event record →
      record.runtime.workerInstanceId = some ordering.workerInstanceId) :
    ∃ current marks, durable S t.shared.file sessionId = some current ∧
    current.nativeIdentityOrdering = some marks ∧
      marks.workerInstanceId = ordering.workerInstanceId ∧ ordering.sequence ≤ marks.sequence ∧
      ordering.workerSequence ≤ marks.workerSequence ∧
      ∀ event u record, StepOf (step S) t event u → Writes sessionId event record →
        record.runtime.workerInstanceId = some marks.workerInstanceId → Behind record marks →
        ∃ new, durable S u.shared.file sessionId = some new ∧ SameIdentity current new := by
  have hmerge : ∀ event ∈ later, ∀ record stored, Writes sessionId event record →
      staleRuntimeSnapshot stored record = false → Marked ordering stored →
      Marked ordering (mergeSession stored record) := by
    rintro event hevent record stored hwrites - ⟨marks, hmarks, hname, hle, hle'⟩
    refine Marked.trans hname hle hle' (marked_merge hmarks ?_)
    rw [hname]
    exact hworker event hevent record hwrites
  obtain ⟨current, hcurrent, marks, hmarks, hname, hle, hle'⟩ :=
    session_run hS hrun hlater hlocal hkeeping
    (fun _ _ => Marked.same) hmerge hexisting ⟨ordering, hordering, rfl, le_rfl, le_rfl⟩
  refine ⟨current, marks, hcurrent, hmarks, hname, hle, hle',
    fun event u record hstep hwrites hnames hbehind => ?_⟩
  obtain ⟨new, hnew, hmerged⟩ :=
    session_written hS (hrun.append hlater) hstep hlocal hwrites hcurrent
  have hidentity := identity_merge hmarks hnames hbehind
  refine ⟨new, hnew, hmerged.nativeSessionId.trans hidentity.nativeSessionId,
    hmerged.nativeSessionPath.trans hidentity.nativeSessionPath, fun reference hreference => ?_⟩
  exact hmerged.reference.trans (hidentity.reference reference hreference)

/-- A writer ahead in the public mark, and after it one behind in both. -/
theorem native_identity_never_back_sample : ∃ later t event u current marks new,
    Run (StepOf (step (.ofTable sampleTable)))
    (.init (some (sampleFile [.session (markedSession 5 3 "five")]))) later t ∧
      StepOf (step (.ofTable sampleTable)) t event u ∧ Writes "s1" event (markedSession 2 1 "two") ∧
      durable (.ofTable sampleTable) t.shared.file "s1" = some current ∧
      current.nativeIdentityOrdering = some marks ∧ 5 ≤ marks.sequence ∧ 3 ≤ marks.workerSequence ∧
      durable (.ofTable sampleTable) u.shared.file "s1" = some new ∧ SameIdentity current new := by
  obtain ⟨later, t, answer, u, hlater, hstep, hlocal, hkeeping, hworker, hanswer⟩ := run_of_exec
    (.ofTable sampleTable) (some (sampleFile [.session (markedSession 5 3 "five")])) "s1"
    (mutating 0 (.recordSession (markedSession 7 2 "seven")) ++
      (mutating 1 (.recordSession (markedSession 2 1 "two"))).take 4)
    (.act 1 (.write none (.committed true)))
    (fun record => record.runtime.workerInstanceId = some "w1")
    (fun answer => answer.sessionWrite = some (markedSession 2 1 "two")) (by decide +kernel)
    (by decide +kernel)
  have hwrites : Writes "s1" ⟨.act 1 (.write none (.committed true)), answer⟩
    (markedSession 2 1 "two") :=
    writes_iff.mpr ⟨of_decide_eq_true hanswer, rfl⟩
  obtain ⟨current, marks, hcurrent, hmarks, hname, hle, hle', hbehind⟩ :=
    native_identity_never_back sampleTable_lawful (.refl _) hlater hlocal hkeeping
      (show durable (.ofTable sampleTable) (some (sampleFile [.session (markedSession 5 3 "five")]))
      "s1" = some (markedSession 5 3 "five") by
        decide +kernel) rfl fun event hevent record hwrites => of_decide_eq_true
          (hworker event hevent record hwrites)
  have hbelow : Behind (markedSession 2 1 "two") marks := by
    rintro candidate ⟨rfl⟩ -
    have h2 : (2 : WithBot ℕ) < 5 := by decide
    have h1 : (1 : WithBot ℕ) < 3 := by decide
    exact ⟨(h2.trans_le hle).le, (h1.trans_le hle').le, .inl (h2.trans_le hle)⟩
  obtain ⟨new, hnew, hsame⟩ := hbehind _ u _ hstep hwrites (by rw [hname]; rfl) hbelow
  exact ⟨later, t, _, u, current, marks, new, hlater, hstep, hwrites, hcurrent, hmarks, hle, hle',
    hnew, hsame⟩

/-! ### The initial input -/

/-- The record shows the initial input as pending. -/
def SessionRecord.inputPending (record : SessionRecord) :
    Bool := record.transaction.any (·.isInitialInput)

theorem preserveNewerNativeIdentity_transaction (existing replacement : SessionRecord) :
    (preserveNewerNativeIdentity existing replacement).transaction = replacement.transaction := by
  unfold preserveNewerNativeIdentity
  repeat' split
  all_goals rfl

theorem SessionRecord.inputPending_of_settled (h : record.inputSettled) :
    record.inputPending = false := by
  simp only [inputSettled, Option.all_eq_true, decide_eq_true_eq] at h
  simp only [inputPending, Option.any_eq_false, SessionTransaction.isInitialInput]
  exact fun transaction htransaction => by simp [h transaction htransaction]

/-- What is settled stays settled under a record without a create of another
phase. -/
theorem settled_merge
    (hphase : ∀ transaction, record.transaction = some transaction → transaction.kind = .create →
      transaction.phase = initialInputPhase) (h : existing.inputSettled) :
    (mergeSession existing record).inputSettled := by
  have hkept := preserveNewerNativeIdentity_transaction existing record
  unfold SessionRecord.inputSettled at h
  unfold mergeSession keepInitialInputSettled
  rw [hkept, h, Bool.and_true]
  dsimp only
  split
  · rfl
  · rename_i hpending
    simp only [SessionRecord.inputSettled, hkept, Option.all_eq_true, decide_eq_true_eq]
    intro transaction htransaction hkind
    refine hpending ?_
    rw [htransaction]
    simp [SessionTransaction.isInitialInput, hkind, hphase transaction htransaction hkind]

include hS hrun hlater hlocal hkeeping in
/-- **Settled initial input never returns**, while no writer brings a create
transaction of another phase. -/
theorem initial_input_stays_settled
    (hphase : ∀ event ∈ later, ∀ record, Writes sessionId event record → ∀ transaction,
      record.transaction = some transaction → transaction.kind = .create →
      transaction.phase = initialInputPhase)
    (hexisting : durable S s.shared.file sessionId = some existing)
    (hsettled : existing.inputSettled) :
    ∃ new, durable S t.shared.file sessionId = some new ∧ new.inputPending = false := by
  obtain ⟨new, hnew, hstill⟩ := session_run hS hrun hlater hlocal hkeeping
    (fun _ _ hsame => hsame.settled)
    (fun event hevent record _ hwrites _ => settled_merge (hphase event hevent record hwrites))
    hexisting hsettled
  exact ⟨new, hnew, inputPending_of_settled hstill⟩

/-- The session with its initial input still pending. -/
def pendingSession : SessionRecord :=
  { sampleSession .running with transaction := some ⟨"t1", .create, initialInputPhase, []⟩ }

/-- A stale copy in which the input is pending is written. -/
theorem initial_input_stays_settled_sample : ∃ later t new,
    Run (StepOf (step (.ofTable sampleTable)))
    (.init (some (sampleFile [.session (sampleSession .running)]))) later t ∧
      later.filterMap (·.answer.sessionWrite) = [pendingSession] ∧
      durable (.ofTable sampleTable) t.shared.file "s1" = some new ∧ new.inputPending = false := by
  have hexec : ((execAll (step (.ofTable sampleTable))
    (.init (some (sampleFile [.session (sampleSession .running)])))
      (mutating 0 (.recordSession pendingSession))).any fun r =>
      decide (r.2.filterMap (·.answer.sessionWrite) = [pendingSession]) &&
      r.2.all fun event => event.answer.sessionRemoval.isNone) = true := by decide +kernel
  obtain ⟨later, t, hrun, hcalls, hcheck⟩ := execAll_any _ hexec
  obtain ⟨hwritten, hkept⟩ := Bool.and_eq_true_iff.mp hcheck
  have hwritten := of_decide_eq_true hwritten
  obtain ⟨new, hnew, hpending⟩ := initial_input_stays_settled sampleTable_lawful (.refl _) hrun
    (local_of_calls hcalls (by decide +kernel))
    (fun event hevent => keeping_of_removal
    (isNone_iff_eq_none.mp (all_eq_true.mp hkept event hevent)))
    (fun event hevent record hwrites transaction htransaction _ => by
      have hmem : record ∈ [pendingSession] :=
        hwritten ▸ mem_filterMap.mpr ⟨event, hevent, (writes_iff.mp hwrites).1⟩
      obtain rfl := mem_singleton.mp hmem
      cases htransaction
      rfl)
    (show durable (.ofTable sampleTable)
    (some (sampleFile [.session (sampleSession .running)])) "s1" = some (sampleSession .running) by
      decide +kernel) rfl
  exact ⟨later, t, new, hrun, hwritten, hnew, hpending⟩

/-! ### Terminal records and resume bindings -/

/-- No resume binding is of a session with a terminal record. -/
def Apart (stored : StoreRecords) : Prop :=
  ∀ record ∈ stored.sessions, record.info.state.isTerminal →
    ∀ binding ∈ stored.resume, binding.sessionId ≠ record.sessionId

theorem Apart.mono {a b : StoreRecords} (h : Apart a)
    (hsessions : ∀ record ∈ b.sessions, ∃ old ∈ a.sessions,
      record.sessionId = old.sessionId ∧ record.info.state = old.info.state)
    (hresume : ∀ binding ∈ b.resume, binding ∈ a.resume) : Apart b := by
  intro record hrecord hterminal binding hbinding
  obtain ⟨old, hold, hid, hstate⟩ := hsessions record hrecord
  rw [hid]
  exact h old hold (hstate ▸ hterminal) binding (hresume binding hbinding)

theorem Apart.normalised {stored : StoreRecords} (h : Apart stored) : Apart stored.normalised := by
  refine h.mono (fun record hrecord => ?_) fun _ hbinding => hbinding
  obtain ⟨old, hold, rfl⟩ := mem_map.mp hrecord
  exact ⟨old, hold, rfl, rfl⟩

section Members

variable {α : Type} {p : α → Bool} {merge : Option α → α} {entries : List (Entry α)} {record : α}

theorem record_mem_upsert (h : record ∈ (upsert p merge entries).map (·.record)) :
    record ∈ entries.map (·.record) ∨ ∃ existing, record = merge existing := by
  obtain ⟨entry, hentry, rfl⟩ := mem_map.mp h
  unfold upsert at hentry
  split at hentry
  · rcases mem_modifyFirst hentry with hentry | ⟨old, -, -, rfl⟩
    · exact .inl (mem_map_of_mem hentry)
    · exact .inr ⟨_, rfl⟩
  · rcases mem_append.mp hentry with hentry | hentry
    · exact .inl (mem_map_of_mem hentry)
    · obtain rfl := mem_singleton.mp hentry
      exact .inr ⟨_, rfl⟩

theorem record_mem_retain (h : record ∈ (retain p entries).map (·.record)) :
    record ∈ entries.map (·.record) ∧ p record := by
  obtain ⟨entry, hentry, rfl⟩ := mem_map.mp h
  obtain ⟨hmem, hp⟩ := mem_filter.mp hentry
  exact ⟨mem_map_of_mem hmem, hp⟩

theorem record_mem_edit {q : Entry α → Bool} {f : α → α}
    (h : record ∈ (modifyFirst q (.edit f) entries).map (·.record)) :
    ∃ old ∈ entries.map (·.record), record = old ∨ record = f old := by
  obtain ⟨entry, hentry, rfl⟩ := mem_map.mp h
  rcases mem_modifyFirst hentry with hentry | ⟨old, hold, -, rfl⟩
  · exact ⟨_, mem_map_of_mem hentry, .inl rfl⟩
  · exact ⟨_, mem_map_of_mem hold, .inr rfl⟩

end Members

/-- A terminal record is stored without the binding of its session. -/
theorem Apart.storeSession (h : Apart records.owned) (record : SessionRecord) :
    Apart (records.storeSession record).owned := by
  intro stored hstored hterminal binding hbinding
  have hkept : binding ∈ records.owned.resume ∧
      (record.info.state.isTerminal → binding.sessionId ≠ record.sessionId) := by
    have hbinding : binding ∈ (dropResumeOfTerminalSession record records.resume).map
      (·.record) := hbinding
    unfold dropResumeOfTerminalSession at hbinding
    split at hbinding
    · obtain ⟨hmem, hne⟩ := record_mem_retain hbinding
      exact ⟨hmem, fun _ => of_decide_eq_true hne⟩
    · rename_i hlive
      exact ⟨hbinding, fun hended => absurd hended hlive⟩
  simp only [Records.owned, Records.storeSession] at hstored
  rcases record_mem_upsert hstored with hold | ⟨existing, rfl⟩
  · exact h stored hold hterminal binding hkept.1
  · have hmerged : SessionRecord.SameRuntime
      (existing.elim record fun existing => mergeSession existing record) record := by
      cases existing with
      | none => exact ⟨rfl, rfl, rfl, rfl⟩
      | some existing => exact mergeSession_runtime existing record
    rw [hmerged.sessionId]
    exact hkept.2 (hmerged.state ▸ hterminal)

/-- **A rewrite keeps them apart**, unless it records a binding of a session
that has ended. -/
theorem Rewrites.apart {mutation : Mutation} {next : Records} (h : Rewrites mutation records next)
    (hapart : Apart records.owned)
    (hresume : ∀ binding, mutation = .recordResume binding → ∀ record ∈ records.owned.sessions,
      record.sessionId = binding.sessionId →
      record.info.state.isTerminal = false) : Apart next.owned := by
  cases h with
  | recordSession record | recordSessionIfCurrent record => exact hapart.storeSession record
  | clearInitialInput | replaceSessionMetadata =>
    refine hapart.mono (fun record hrecord => ?_) fun _ hbinding => hbinding
    obtain ⟨old, hold, rfl | rfl⟩ := record_mem_edit hrecord
    · exact ⟨record, hold, rfl, rfl⟩
    · exact ⟨old, hold, rfl, rfl⟩
  | removeSession =>
    refine hapart.mono (fun record hrecord => ?_) fun _ hbinding => hbinding
    simp only [owned] at hrecord
    exact ⟨record, (record_mem_retain hrecord).1, rfl, rfl⟩
  | recordResume binding replacement hkey =>
    intro record hrecord hterminal stored hstored
    simp only [owned] at hstored
    rcases record_mem_upsert hstored with hold | ⟨existing, rfl⟩
    · exact hapart record hrecord hterminal stored hold
    · rw [hkey]
      intro hsame
      rw [hresume binding rfl record hrecord hsame.symm] at hterminal
      cases hterminal
  | removeResume =>
    refine hapart.mono
      (fun record hrecord => ⟨record, hrecord, rfl, rfl⟩) fun binding hbinding => ?_
    simp only [owned] at hbinding
    exact (record_mem_retain hbinding).1
  | recordWorktree | removeWorktreeSession | removeWorktreeBinding | mutateProject
  | recordProject | removeProject =>
    exact hapart

/-- Every resume binding is recorded for a session without a terminal record
in the file. -/
def ResumesLive (S : Serde) (file : Option Text) (event : Event) : Prop :=
  ∀ binding body, event.answer = .wrote (.mutate (.recordResume binding)) body →
    ∀ stored rejected, decodeFile S file = .ok (stored, rejected) →
      ∀ record ∈ stored.sessions, record.sessionId = binding.sessionId →
      record.info.state.isTerminal = false

/-- The file, if it can be loaded, has terminal records and resume bindings of
different sessions. -/
def FileApart (S : Serde) (file : Option Text) : Prop :=
  ∀ stored rejected, decodeFile S file = .ok (stored, rejected) → Apart stored

theorem fileApart_of_decode {body : Text} {stored : StoreRecords} {rejected : List RejectedLine}
    (hbody : decode S body = .ok (stored, rejected)) (h : Apart stored) :
    FileApart S (some body) := by
  intro stored' rejected' hdecode
  obtain ⟨rfl, -⟩ := Prod.mk.inj (Except.ok.inj (hbody.symm.trans hdecode))
  exact h

theorem Committed.apart {before after : Option Text} (h : Committed S before after event.answer)
    (hlive : ResumesLive S before event) (hbefore : FileApart S before) : FileApart S after := by
  obtain ⟨call, answer⟩ := event
  cases h with
  | kept _ hfile =>
    rw [hfile]
    exact hbefore
  | mutated mutation body hfile happlied =>
    obtain ⟨stored, rejected, next, answer, rejected', hdecode, hplan, hbody, -⟩ := happlied
    have hnext : Apart next.owned := by
      refine (Mutation.plan_rewrite hplan).apart ?_ ?_
      · rw [owned_fromStoreRecords]
        exact hbefore stored rejected hdecode
      · rintro binding rfl
        rw [owned_fromStoreRecords]
        exact hlive binding body rfl stored rejected hdecode
    rw [hfile]
    exact fileApart_of_decode hbody hnext.normalised
  | aside contentHash acceptPinLoss body stored rejected rejected' hfile hdecode hbody =>
    rw [hfile]
    exact fileApart_of_decode hbody (hbefore stored rejected hdecode)

/-- What the trace says of the file. -/
def fileAfter (file : Option Text) (trace : List Event) : Option Text := (watch 0 file trace).file

variable {trace : List Event}

theorem fileAfter_of_run (hrun : Run (StepOf (step S)) (.init file) trace s) :
    fileAfter file trace = s.shared.file :=
  (tracks_of_run 0 hrun).1.file

/-- Every binding of the trace is recorded for a session that has not ended. -/
def RecordsLive (S : Serde) (file : Option Text) (trace : List Event) : Prop :=
  ∀ earlier event later, trace = earlier ++ event :: later →
    ResumesLive S (fileAfter file earlier) event

theorem fileApart_of_run (hS : S.Lawful) (hrun : Run (StepOf (step S)) (.init file) trace s)
    (hlocal : Local trace) (hfile : FileApart S file) (hlive : RecordsLive S file trace) :
    FileApart S s.shared.file := by
  refine hrun.history (fun _ _ => hfile) ?_ hlocal hlive
  intro trace s event t hrun ih hstep hlocal hlive
  have hlocal' : Local trace := fun e he => hlocal e (mem_append_left _ he)
  have hlive' : RecordsLive S file trace := by
    rintro earlier event' later rfl
    exact hlive earlier event' (later ++ [event]) (by simp)
  refine (committed_of_step hS hrun hstep hlocal).apart ?_ (ih hlocal' hlive')
  rw [← fileAfter_of_run hrun]
  exact hlive trace event [] rfl

/-- **A terminal session is never stored next to its resume binding**, in runs
where each binding is recorded for a session that has not ended. -/
theorem terminal_apart (hS : S.Lawful) {trace : List Event}
    (hrun : Run (StepOf (step S)) (.init file) trace s) (hlocal : Local trace)
    (hfile : FileApart S file) (hlive : RecordsLive S file trace) :
    ∀ event ∈ trace, ∀ call body, event.answer = .wrote call body →
      ∃ stored rejected, decode S body = .ok (stored, rejected) ∧ Apart stored := by
  intro event hevent call body hanswer
  obtain ⟨earlier, later, rfl⟩ := append_of_mem hevent
  obtain ⟨moment, hearlier, hrest⟩ := hrun.split
  obtain ⟨after, hstep, -⟩ := hrest.cons_inv
  have hsplit : earlier ++ event :: later = (earlier ++ [event]) ++ later := by simp
  have hlocal' : Local (earlier ++ [event]) := fun e he => hlocal e (hsplit ▸ mem_append_left _ he)
  have hlive' : RecordsLive S file (earlier ++ [event]) := by
    intro before e rest hbefore
    refine hlive before e (rest ++ later) ?_
    rw [hsplit, hbefore]
    simp
  have happart := fileApart_of_run hS (hearlier.snoc hstep) hlocal' hfile hlive'
  have hcommitted := committed_of_step hS hearlier hstep hlocal'
  rw [hanswer] at hcommitted
  generalize after.shared.file = content at happart hcommitted
  cases hcommitted with
  | kept _ _ hbody => cases hbody
  | mutated mutation _ hfile happlied =>
    subst hfile
    obtain ⟨-, -, next, -, rejected', -, -, hbody, -⟩ := happlied
    exact ⟨_, rejected', hbody, happart _ rejected' hbody⟩
  | aside contentHash acceptPinLoss _ stored rejected rejected' hfile _ hbody =>
    subst hfile
    exact ⟨stored, rejected', hbody, happart _ rejected' hbody⟩

/-- `ResumesLive`, computed. -/
def resumesLive (S : Serde) (file : Option Text) (event : Event) : Bool :=
  match event.answer with
  | .wrote (.mutate (.recordResume binding)) _ => (decodeFile S file).toOption.all fun decoded =>
      decoded.1.sessions.all fun record => record.sessionId ≠ binding.sessionId ||
        !record.info.state.isTerminal
  | _ => true

theorem resumesLive_iff (h : resumesLive S file event) : ResumesLive S file event := by
  intro binding body hanswer stored rejected hdecode record hrecord hid
  unfold resumesLive at h
  rw [hanswer, hdecode] at h
  have hall := all_eq_true.mp h record hrecord
  simpa [hid] using hall

/-- A binding is recorded, then the session ends. -/
theorem terminal_apart_sample : ∃ trace s,
    Run (StepOf (step (.ofTable sampleTable))) (.init none) trace s ∧
      trace.filterMap (·.answer.body) =
      [sampleFile [.resume sampleResume], sampleFile [.session (sampleSession .done)]] ∧
      ∀ event ∈ trace, ∀ call body, event.answer = .wrote call body →
        ∃ stored rejected, decode (.ofTable sampleTable) body = .ok (stored, rejected) ∧
        Apart stored := by
  have hexec : ((execAll (step (.ofTable sampleTable)) (.init none)
      (mutating 0 (.recordResume sampleResume) ++
      mutating 1 (.recordSession (sampleSession .done)))).any fun r =>
      decide (r.2.filterMap (·.answer.body) =
        [sampleFile [.resume sampleResume], sampleFile [.session (sampleSession .done)]]) &&
      (List.range r.2.length).all fun n => r.2[n]?.all fun event =>
        resumesLive (.ofTable sampleTable) (fileAfter none (r.2.take n)) event) := by decide +kernel
  obtain ⟨trace, s, hrun, hcalls, hcheck⟩ := execAll_any _ hexec
  obtain ⟨hbodies, hlive⟩ := Bool.and_eq_true_iff.mp hcheck
  refine ⟨trace, s, hrun, of_decide_eq_true hbodies,
    terminal_apart sampleTable_lawful hrun (local_of_calls hcalls (by decide +kernel)) ?_ ?_⟩
  · rintro stored rejected hdecode
    cases hdecode
    exact fun record hrecord => absurd hrecord not_mem_nil
  · rintro earlier event later rfl
    have hat := all_eq_true.mp hlive earlier.length (by simp)
    rw [take_left', getElem?_append_right le_rfl] at hat
    · exact resumesLive_iff (by simpa using hat)
    · rfl

/-- **A binding is stored next to a terminal record** when it is recorded after
the session has ended. -/
theorem resume_after_end : ∃ trace s event call body stored rejected record binding,
    Run (StepOf (step (.ofTable sampleTable))) (.init none) trace s ∧ Local trace ∧ event ∈ trace ∧
      event.answer = .wrote call body ∧
      decode (.ofTable sampleTable) body = .ok (stored, rejected) ∧
      record ∈ stored.sessions ∧ record.info.state.isTerminal ∧ binding ∈ stored.resume ∧
      binding.sessionId = record.sessionId := by
  have hexec : ((execAll (step (.ofTable sampleTable)) (.init none)
      (mutating 0 (.recordSession (sampleSession .done)) ++
      mutating 1 (.recordResume sampleResume))).any fun r =>
      r.2.any fun event => event.answer.body =
      some (sampleFile [.resume sampleResume, .session (sampleSession .done)])) := by decide +kernel
  obtain ⟨trace, s, hrun, hcalls, hcheck⟩ := execAll_any _ hexec
  obtain ⟨event, hevent, hbody⟩ := any_eq_true.mp hcheck
  have hbody := of_decide_eq_true hbody
  cases hanswer : event.answer with
  | wrote call body =>
    rw [hanswer] at hbody
    cases hbody
    refine ⟨trace, s, event, call, _, ⟨[sampleResume], [], [], [sampleSession .done]⟩, [],
      sampleSession .done,
      sampleResume, hrun, local_of_calls hcalls (by decide +kernel), hevent, hanswer, ?_, by simp,
      rfl, by simp, rfl⟩
    decide +kernel
  | silent | snapshot | answered | failed =>
    rw [hanswer] at hbody
    cases hbody

end Pohunek.Metadata
