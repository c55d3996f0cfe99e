/-
# The record of a session over a run

While no other process writes the file, each rewrite is a mutation of what the
file holds (`committed_of_step`): calls overlap, mutations do not. So what
happens to the record of one session is read off the mutations, one after the
other: a session write merges into it, removing the session takes it away, and
everything else leaves what the later rules read of it (`SameSession`).
-/
import Pohunek.Metadata.Frame

namespace Pohunek.Metadata

open Keyed Runs Records List Option

variable {S : Serde}

/-! ### The record of a session -/

def StoreRecords.session (stored : StoreRecords) (sessionId : String) : Option SessionRecord :=
  stored.sessions.find? fun record => record.sessionId = sessionId

/-- The record of a session in a file. -/
def durable (S : Serde) (file : Option Text) (sessionId : String) : Option SessionRecord :=
  (decodeFile S file).toOption.bind fun decoded => decoded.1.session sessionId

variable {file : Option Text}

theorem durable_of_decode {stored : StoreRecords} {rejected : List RejectedLine}
    (h : decodeFile S file = .ok (stored, rejected)) (sessionId : String) :
    durable S file sessionId = stored.session sessionId := by
  rw [durable, h]
  rfl

/-- The native reference of a binding. -/
def ResumeBinding.reference (binding : ResumeBinding) :
    Option String × Option String × NativeReferenceProvenance :=
  (binding.nativeSessionId, binding.nativeSessionPath, binding.nativeReferenceProvenance)

/-- The record shows the initial input as settled: no create is under way, as
`keep_initial_input_settled` asks of the stored record. -/
def SessionRecord.inputSettled (record : SessionRecord) : Bool :=
  record.transaction.all fun transaction => transaction.kind ≠ .create

/-- The record says the same of the session's state, runtime and native
identity, and initial input that is settled stays so. -/
structure SameSession (old new : SessionRecord) : Prop where
  sessionId : new.sessionId = old.sessionId
  state : new.info.state = old.info.state
  generation : new.info.runtime.map (·.runtimeGeneration) = old.info.runtime.map
    (·.runtimeGeneration)
  worker : new.workerInstanceId = old.workerInstanceId
  ordering : new.nativeIdentityOrdering = old.nativeIdentityOrdering
  nativeSessionId : new.info.nativeSessionId = old.info.nativeSessionId
  nativeSessionPath : new.info.nativeSessionPath = old.info.nativeSessionPath
  reference : new.recovery.map (·.reference) = old.recovery.map (·.reference)
  settled : old.inputSettled → new.inputSettled

namespace SameSession

variable {a b c : SessionRecord}

theorem refl (record : SessionRecord) : SameSession record record :=
  ⟨rfl, rfl, rfl, rfl, rfl, rfl, rfl, rfl, id⟩

theorem trans (h : SameSession a b) (h' : SameSession b c) : SameSession a c where
  sessionId := h'.sessionId.trans h.sessionId
  state := h'.state.trans h.state
  generation := h'.generation.trans h.generation
  worker := h'.worker.trans h.worker
  ordering := h'.ordering.trans h.ordering
  nativeSessionId := h'.nativeSessionId.trans h.nativeSessionId
  nativeSessionPath := h'.nativeSessionPath.trans h.nativeSessionPath
  reference := h'.reference.trans h.reference
  settled := h'.settled ∘ h.settled

theorem withMetadata (metadata : List (String × String)) (updatedAt : String)
    (record : SessionRecord) :
    SameSession record (Metadata.withMetadata metadata updatedAt record) := by
  refine ⟨rfl, rfl, rfl, rfl, rfl, rfl, rfl, ?_, id⟩
  rw [Metadata.withMetadata, Option.map_map]
  rfl

/-- The record as it is loaded. -/
theorem mirrored (record : SessionRecord) :
    SameSession record
    (mirrorWorkerInstanceId { record with schemaVersion := storeSchemaVersion }) := by
  refine ⟨rfl, rfl, ?_, ?_, rfl, rfl, rfl, rfl, id⟩
  · simp only [mirrorWorkerInstanceId, Option.map_map]
    rfl
  · simp only [SessionRecord.workerInstanceId, mirrorWorkerInstanceId]
    cases record.info.runtime with
    | none => rfl
    | some runtime => cases record.runtime.workerInstanceId <;> simp

theorem rel_refl (old : Option SessionRecord) : Option.Rel SameSession old old := by
  cases old with
  | none => exact .none
  | some record => exact .some (.refl record)

end SameSession

theorem Records.session_owned (records : Records) (sessionId : String) :
    records.owned.session sessionId = (records.session sessionId).map (·.record) :=
  find?_map

theorem StoreRecords.session_normalised (stored : StoreRecords) (sessionId : String) :
    Option.Rel SameSession (stored.session sessionId) (stored.normalised.session sessionId) := by
  refine Pointwise.find?_rel (fun a b hab => by rw [hab.sessionId]) ?_
  rw [StoreRecords.normalised, forall₂_map_right_iff]
  exact forall₂_same.mpr fun record _ => .mirrored record

/-! ### What a mutation does to the record of a session -/

/-- The record that a session write brings. -/
def Mutation.sessionWrite : Mutation → Option SessionRecord
  | .recordSession record => some record
  | .recordSessionIfCurrent _ record => some record
  | _ => none

/-- The record of a session before and after a mutation. -/
inductive SessionChange (sessionId : String) (mutation : Mutation) :
    Option SessionRecord → Option SessionRecord → Prop
  | same {old new : Option SessionRecord}
      (hother : ∀ record, mutation.sessionWrite = some record → record.sessionId ≠ sessionId)
      (h : Option.Rel SameSession old new) : SessionChange sessionId mutation old new
  | inserted (record new : SessionRecord) (hwrite : mutation.sessionWrite = some record)
      (hid : record.sessionId = sessionId) (hnew : SameSession record new) :
      SessionChange sessionId mutation none (some new)
  | merged (record existing new : SessionRecord) (hwrite : mutation.sessionWrite = some record)
      (hid : record.sessionId = sessionId) (hfresh : staleRuntimeSnapshot existing record = false)
      (hnew : SameSession (mergeSession existing record) new) :
      SessionChange sessionId mutation (some existing) (some new)
  | removed (old : Option SessionRecord) (hmutation : mutation = .removeSession sessionId) :
      SessionChange sessionId mutation old none

variable {mutation : Mutation}

theorem SessionChange.unwritten {sessionId : String} {old new : Option SessionRecord}
    (hwrite : mutation.sessionWrite = none) (h : Option.Rel SameSession old new) :
    SessionChange sessionId mutation old new := by
  refine .same (fun record hrecord => ?_) h
  rw [hwrite] at hrecord
  cases hrecord

section Upsert

variable {α : Type} {p q : α → Bool} {merge : Option α → α} {entries : List (Entry α)}

theorem find?_upsert (hmerge : ∀ existing, p (merge existing)) :
    ((upsert p merge entries).find? fun entry => p entry.record).map (·.record) =
      some (merge ((entries.find? fun entry => p entry.record).map (·.record))) := by
  unfold upsert
  cases hfound : entries.find? fun entry => p entry.record with
  | none => simp [find?_append, hfound, Entry.new, hmerge]
  | some found =>
    have hreplace : ∀ entry : Entry α, p entry.record →
        p (entry.replace (merge (some entry.record))).record := fun entry _ => hmerge _
    have hmodified :=
      find?_modifyFirst (p := fun entry : Entry α => p entry.record) hreplace entries
    rw [hfound] at hmodified
    simp only [hmodified, map_some]
    rfl

theorem find?_upsert_of_ne (hp : ∀ record, p record → q record = false)
    (hmerge : ∀ existing, q (merge existing) = false) :
    (upsert p merge entries).find?
    (fun entry => q entry.record) = entries.find? fun entry => q entry.record := by
  unfold upsert
  split
  · have hreplace : ∀ entry : Entry α, p entry.record →
        q entry.record = false ∧ q (entry.replace (merge (some entry.record))).record = false :=
      fun entry hentry => ⟨hp _ hentry, hmerge _⟩
    exact find?_modifyFirst_of_ne (q := fun entry : Entry α => q entry.record) hreplace entries
  · simp [find?_append, Entry.new, hmerge]

end Upsert

theorem storeSession_session_self (records : Records) (record : SessionRecord) :
    (records.storeSession record).owned.session record.sessionId =
      some ((records.owned.session record.sessionId).elim record fun existing =>
      mergeSession existing record) := by
  rw [session_owned, session_owned]
  simp only [session, storeSession]
  refine find?_upsert (p := fun existing : SessionRecord => existing.sessionId = record.sessionId)
    fun existing => ?_
  cases existing with
  | none => simp
  | some existing => exact decide_eq_true (mergeSession_runtime existing record).sessionId

theorem storeSession_session_other (records : Records) (record : SessionRecord) {sessionId : String}
    (hne : record.sessionId ≠ sessionId) :
    (records.storeSession record).owned.session sessionId = records.owned.session sessionId := by
  rw [session_owned, session_owned]
  congr 1
  simp only [session, storeSession]
  refine find?_upsert_of_ne
    (q := fun existing : SessionRecord => existing.sessionId = sessionId) ?_ ?_
  · intro existing hexisting
    have hkey : existing.sessionId = record.sessionId := by simpa using hexisting
    simpa [hkey] using hne
  · intro existing
    cases existing with
    | none => exact decide_eq_false hne
    | some existing =>
      refine decide_eq_false ?_
      rw [elim_some, (mergeSession_runtime existing record).sessionId]
      exact hne

variable {records : Records}

/-- An edit of entries that keeps what is said of their sessions. -/
theorem edit_session {p : Entry SessionRecord → Bool} {f : SessionRecord → SessionRecord}
    (hf : ∀ record, SameSession record (f record)) (sessionId : String) :
    Option.Rel SameSession (records.owned.session sessionId)
      (StoreRecords.session
      { records with sessions := modifyFirst p (.edit f) records.sessions }.owned sessionId) := by
  refine Pointwise.find?_rel (fun a b hab => by rw [hab.sessionId]) ?_
  simp only [owned, forall₂_map_left_iff, forall₂_map_right_iff]
  exact forall₂_modifyFirst (fun _ => .refl _) (fun entry _ => hf entry.record) records.sessions

theorem storeSession_change {record : SessionRecord} (hwrite : mutation.sessionWrite = some record)
    (hfresh : ∀ existing, records.owned.session record.sessionId = some existing →
      staleRuntimeSnapshot existing record = false) (sessionId : String) :
    SessionChange sessionId mutation (records.owned.session sessionId)
      ((records.storeSession record).owned.session sessionId) := by
  by_cases hid : record.sessionId = sessionId
  · subst hid
    rw [storeSession_session_self]
    cases hold : records.owned.session record.sessionId with
    | none => exact .inserted record record hwrite rfl (.refl _)
    | some existing => exact .merged record existing _ hwrite rfl (hfresh existing hold) (.refl _)
  · rw [storeSession_session_other records record hid]
    refine .same (fun record' hrecord' => ?_) (SameSession.rel_refl _)
    rw [hwrite] at hrecord'
    cases hrecord'
    exact hid

/-- **What a rewrite does to the record of a session.** -/
theorem Rewrites.session {next : Records} (h : Rewrites mutation records next)
    (sessionId : String) :
    SessionChange sessionId mutation (records.owned.session sessionId)
    (next.owned.session sessionId) := by
  cases h with
  | recordSession record hfresh =>
    refine storeSession_change rfl (fun existing hexisting => ?_) sessionId
    rw [session_owned] at hexisting
    obtain ⟨entry, hentry, rfl⟩ := map_eq_some_iff.mp hexisting
    exact hfresh entry hentry
  | recordSessionIfCurrent record entry hentry hfresh =>
    refine storeSession_change rfl (fun existing hexisting => ?_) sessionId
    rw [session_owned, hentry] at hexisting
    cases hexisting
    exact hfresh
  | clearInitialInput =>
    have hsame : ∀ record : SessionRecord, SameSession record { record with transaction := none } :=
      fun record => ⟨rfl, rfl, rfl, rfl, rfl, rfl, rfl, rfl, fun _ => rfl⟩
    exact .unwritten rfl (edit_session hsame sessionId)
  | replaceSessionMetadata _ metadata updatedAt =>
    exact .unwritten rfl (edit_session (.withMetadata metadata updatedAt) sessionId)
  | removeSession removed =>
    by_cases hid : removed = sessionId
    · subst hid
      have hgone : (StoreRecords.session { records with
          sessions := retain (fun record => record.sessionId ≠ removed) records.sessions }.owned
            removed) = none := by
        simp [StoreRecords.session, owned, retain]
      rw [hgone]
      exact .removed _ rfl
    · have hkept : (StoreRecords.session { records with
          sessions := retain (fun record => record.sessionId ≠ removed) records.sessions }.owned
            sessionId) = records.owned.session sessionId := by
        rw [session_owned, session_owned]
        simp only [session, retain, find?_filter]
        congr 2
        funext entry
        by_cases hentry : entry.record.sessionId = sessionId
        · simp [hentry, Ne.symm hid]
        · simp [hentry]
      rw [hkept]
      exact .unwritten rfl (SameSession.rel_refl _)
  | recordResume | removeResume | recordWorktree | removeWorktreeSession | removeWorktreeBinding
  | mutateProject
    | recordProject | removeProject => exact .unwritten rfl (SameSession.rel_refl _)

/-! ### Mutations one after the other -/

/-- No other process writes the file. -/
def Local (trace : List Event) : Prop := ∀ event ∈ trace, ∀ content, event.call ≠ .replace content

def Input.isReplace : Input → Bool
  | .replace _ => true
  | .act _ _ => false

variable {trace : List Event}

theorem local_of_calls {inputs : List Input} (hcalls : trace.map (·.call) = inputs)
    (h : inputs.any Input.isReplace = false) : Local trace := by
  intro event hevent content hcall
  have hmem : event.call ∈ inputs := hcalls ▸ mem_map_of_mem hevent
  have hnone := any_eq_false.mp h _ hmem
  rw [hcall] at hnone
  exact hnone rfl

theorem watch_local {thread : ℕ} (h : Local trace) :
    (watch thread file trace).foreign = false := by
  induction trace using List.reverseRecOn with
  | nil => rfl
  | append_singleton trace event ih =>
    obtain ⟨hbefore, hevent⟩ := forall_mem_append.mp h
    have hlocal := hevent event (mem_singleton.mpr rfl)
    have hforeign := ih hbefore
    rw [watch_snoc]
    unfold Watch.after
    split
    · rename_i content hcall
      exact absurd hcall (hlocal content)
    · rename_i actor action hcall
      have hact : ∀ w : Watch, w.foreign = false → (w.act action).foreign = false := by
        intro w hw
        cases action with
        | start => rfl
        | read failure => cases failure <;> exact hw
        | clone | finish | write | remember => exact hw
      split <;> split <;> first | exact hact _ hforeign | exact hforeign

/-- What an event of the process does to the file. -/
inductive Committed (S : Serde) (before after : Option Text) : Output → Prop
  | kept (output : Output) (hfile : after = before) (hbody : output.body = none) :
    Committed S before after output
  | mutated (mutation : Mutation) (body : Text)
      (hfile : after = some body) (happlied : Applied S before mutation body) :
      Committed S before after (.wrote (.mutate mutation) body)
  | aside (contentHash : String) (acceptPinLoss : Bool) (body : Text) (stored : StoreRecords)
      (rejected rejected' : List RejectedLine) (hfile : after = some body)
      (hbefore : decodeFile S before = .ok (stored, rejected))
      (hafter : decode S body = .ok (stored, rejected')) :
      Committed S before after (.wrote (.setAside contentHash acceptPinLoss) body)

/-- **Mutations happen one after the other**: each is of what the file holds
when it is written. -/
theorem committed_of_step (hS : S.Lawful) {event : Event} {s t : System}
    (hrun : Run (StepOf (step S)) (.init file) trace s) (hstep : StepOf (step S) s event t)
    (hlocal : Local (trace ++ [event])) : Committed S s.shared.file t.shared.file event.answer := by
  obtain ⟨hbefore, hevent⟩ := forall_mem_append.mp hlocal
  have hgood := valid_of_run hS hrun
  obtain ⟨call, answer⟩ := event
  cases call with
  | replace content => exact absurd rfl (hevent _ (mem_singleton.mpr rfl) content)
  | act thread action =>
    obtain ⟨htracks, -⟩ := tracks_of_run thread hrun
    by_cases hbody : answer.body = none
    · refine .kept answer ?_ hbody
      cases StepOf.moves hstep with
      | act _ _ _ phase shared writeLock hadvances =>
        rcases hadvances.effect with ⟨-, hfile⟩ | ⟨body, hsome, -⟩
        · exact hfile
        · rw [hbody] at hsome
          cases hsome
    · cases answer with
      | wrote call body =>
        obtain ⟨-, hrewrote, hfile, -⟩ := htracks.wrote hgood hstep
        have hcurrent := htracks.fetched_current hgood hstep (watch_local hbefore)
        rw [hcurrent, htracks.file] at hrewrote
        cases call with
        | load => cases hrewrote
        | mutate mutation => exact .mutated mutation body hfile (hrewrote.applied hS)
        | setAside contentHash acceptPinLoss =>
          obtain ⟨stored, rejected, rejected', hdecode, hbody, -⟩ := hrewrote.aside hS
          exact .aside contentHash acceptPinLoss body stored rejected rejected' hfile hdecode hbody
      | silent | snapshot | answered | failed => exact absurd rfl hbody

/-- **The record of a session over one event.** -/
theorem Committed.session {before after : Option Text} {output : Output}
    (h : Committed S before after output) (sessionId : String) :
    (∀ mutation body, output ≠ .wrote (.mutate mutation) body) ∧
        Option.Rel SameSession (durable S before sessionId) (durable S after sessionId) ∨
      ∃ mutation body, output = .wrote (.mutate mutation) body ∧
        SessionChange sessionId mutation (durable S before sessionId)
        (durable S after sessionId) := by
  cases h with
  | kept _ hfile hbody =>
    left
    refine ⟨?_, by rw [hfile]; exact SameSession.rel_refl _⟩
    rintro mutation body rfl
    cases hbody
  | mutated mutation body hfile happlied =>
    right
    obtain ⟨stored, rejected, next, answer, rejected', hbefore, hplan, hafter, -⟩ := happlied
    refine ⟨mutation, body, rfl, ?_⟩
    rw [hfile, durable_of_decode hbefore,
      durable_of_decode (show decodeFile S (some body) = _ from hafter)]
    have hchange := (Mutation.plan_rewrite hplan).session sessionId
    rw [owned_fromStoreRecords] at hchange
    have hnormal := next.owned.session_normalised sessionId
    generalize stored.session sessionId = old at hchange
    generalize next.owned.session sessionId = new at hchange hnormal
    generalize next.owned.normalised.session sessionId = loaded at hnormal
    cases hnormal with
    | none =>
      cases hchange with
      | same hother hrel => exact .same hother hrel
      | removed _ hmutation => exact .removed _ hmutation
    | some hloaded =>
      cases hchange with
      | same hother hrel =>
        cases hrel with
        | some hsame => exact .same hother (.some (hsame.trans hloaded))
      | inserted record _ hwrite hid hnew =>
        exact .inserted record _ hwrite hid (hnew.trans hloaded)
      | merged record existing _ hwrite hid hfresh hnew =>
        exact .merged record existing _ hwrite hid hfresh (hnew.trans hloaded)
  | aside contentHash acceptPinLoss body stored rejected rejected' hfile hbefore hafter =>
    left
    refine ⟨fun mutation body' heq => absurd (Output.wrote.inj heq).1 (by simp), ?_⟩
    rw [hfile, durable_of_decode hbefore,
      durable_of_decode (show decodeFile S (some body) = _ from hafter)]
    exact SameSession.rel_refl _

end Pohunek.Metadata
