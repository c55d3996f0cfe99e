/-
# Metadata records

The four record kinds of `crates/daemon/src/store/mod.rs` and the rules by
which a session record is merged into the one the store holds. A record keeps
the fields the store reads or writes under their names; `other` stands for the
rest of its JSON object, which the store only carries along.

A sequence mark is an element of `WithBot ℕ`: no mark is below every mark, as
`None` is below every `Some` for `Option<u64>`.
-/
import Mathlib.Order.WithBot
import Mathlib.Tactic

namespace Pohunek.Metadata

/-- The members of a JSON object that the store does not look at. -/
abbrev Other := List (String × String)

/-! ### Bindings and projects -/

/-- A runtime named by a record: a valid id, or a label that is none. -/
inductive RuntimeRef
  | id (id : String)
  | historical (label : String)
  deriving DecidableEq

/-- `kind_is_persistable`. -/
def kindIsPersistable : RuntimeRef → Bool
  | .id _ => true
  | .historical _ => false

inductive NativeReferenceProvenance
  | reported | assigned
  deriving DecidableEq

structure ResumeBinding where
  sessionId : String
  agentBase : RuntimeRef
  nativeSessionId : Option String
  nativeSessionPath : Option String
  nativeReferenceProvenance : NativeReferenceProvenance
  metadata : List (String × String)
  other : Other
  deriving DecidableEq

structure WorktreeBinding where
  sessionId : String
  repository : String
  branchSlug : String
  other : Other
  deriving DecidableEq

structure ProjectRecord where
  gitCommonDir : String
  other : Other
  deriving DecidableEq

/-! ### Sessions -/

inductive SessionState
  | starting | running | stopped | done | failed
  deriving DecidableEq

def SessionState.isTerminal : SessionState → Bool
  | stopped | done | failed => true
  | starting | running => false

inductive TransactionKind
  | create | stop | recover | remove
  deriving DecidableEq

structure SessionTransaction where
  id : String
  kind : TransactionKind
  phase : String
  other : Other
  deriving DecidableEq

/-- `INITIAL_INPUT_PHASE`. -/
def initialInputPhase : String := "initial_input"

def SessionTransaction.isInitialInput (transaction : SessionTransaction) : Bool :=
  transaction.kind = .create ∧ transaction.phase = initialInputPhase

structure RuntimeRecord where
  workerInstanceId : Option String
  other : Other
  deriving DecidableEq

structure SessionRuntime where
  runtimeGeneration : ℕ
  workerInstanceId : Option String
  other : Other
  deriving DecidableEq

structure SessionInfo where
  agentBase : RuntimeRef
  activeAgentBase : Option RuntimeRef
  runtime : Option SessionRuntime
  state : SessionState
  nativeSessionId : Option String
  nativeSessionPath : Option String
  metadata : List (String × String)
  updatedAt : String
  other : Other
  deriving DecidableEq

structure NativeIdentityOrdering where
  workerInstanceId : String
  pid : ℕ
  pidStartIdentity : ℕ
  sequence : WithBot ℕ
  workerSequence : WithBot ℕ
  deriving DecidableEq

/-- Ahead in at least one transport. -/
def NativeIdentityOrdering.isAheadOf (self other : NativeIdentityOrdering) : Bool :=
  other.sequence < self.sequence ∨ other.workerSequence < self.workerSequence

structure CreateRequest where
  id : String
  fingerprint : String
  deriving DecidableEq

structure SessionRecord where
  schemaVersion : ℕ
  sessionId : String
  transaction : Option SessionTransaction
  info : SessionInfo
  recovery : Option ResumeBinding
  nativeIdentityOrdering : Option NativeIdentityOrdering
  runtime : RuntimeRecord
  createRequest : Option CreateRequest
  other : Other
  deriving DecidableEq

/-- One line of the store. -/
inductive Record
  | session (record : SessionRecord)
  | resume (binding : ResumeBinding)
  | worktree (binding : WorktreeBinding)
  | project (record : ProjectRecord)
  deriving DecidableEq

variable (record : SessionRecord)

/-- `record_agents_are_persistable`. -/
def recordAgentsArePersistable : Bool :=
  kindIsPersistable record.info.agentBase && record.info.activeAgentBase.all kindIsPersistable &&
    record.recovery.all fun binding => kindIsPersistable binding.agentBase

/-- What a line has to satisfy to be loaded, and a record to be written. -/
def Record.persistable : Record → Bool
  | .session record => recordAgentsArePersistable record
  | .resume binding => kindIsPersistable binding.agentBase
  | .worktree _ | .project _ => true

/-! ### The native identity of a session -/

/-- The reference of `source` in place of the binding's own. -/
def ResumeBinding.withReference (binding source : ResumeBinding) : ResumeBinding :=
  { binding with
    nativeSessionId := source.nativeSessionId
    nativeSessionPath := source.nativeSessionPath
    nativeReferenceProvenance := source.nativeReferenceProvenance }

/-- The references `source` has in place of the binding's own. -/
def ResumeBinding.withNonemptyReference (binding source : ResumeBinding) : ResumeBinding :=
  { binding with
    nativeSessionId := source.nativeSessionId.or binding.nativeSessionId
    nativeSessionPath := source.nativeSessionPath.or binding.nativeSessionPath
    nativeReferenceProvenance :=
      if source.nativeSessionId.isSome || source.nativeSessionPath.isSome then
        source.nativeReferenceProvenance
      else binding.nativeReferenceProvenance }

/-- The recovery of a merged record; one that only the store has is kept. -/
def mergeRecovery (merge : ResumeBinding → ResumeBinding → ResumeBinding) :
    Option ResumeBinding → Option ResumeBinding → Option ResumeBinding
  | some replacement, some existing => some (merge replacement existing)
  | none, some existing => some existing
  | replacement, none => replacement

variable (existing replacement : SessionRecord)

/-- `preserve_nonempty_native_identity`. -/
def preserveNonemptyNativeIdentity : SessionRecord :=
  { replacement with
    info := { replacement.info with
      nativeSessionId := existing.info.nativeSessionId.or replacement.info.nativeSessionId
      nativeSessionPath := existing.info.nativeSessionPath.or replacement.info.nativeSessionPath }
    recovery := mergeRecovery .withNonemptyReference replacement.recovery existing.recovery }

/-- The end of `preserve_newer_native_identity`: the stored identity stays. -/
def preserveNativeIdentity : SessionRecord :=
  { replacement with
    info := { replacement.info with
      nativeSessionId := existing.info.nativeSessionId
      nativeSessionPath := existing.info.nativeSessionPath }
    recovery := mergeRecovery .withReference replacement.recovery existing.recovery }

def preserveNewerNativeIdentity : SessionRecord :=
  match existing.nativeIdentityOrdering with
  | none => replacement
  | some ordering =>
    if replacement.runtime.workerInstanceId ≠ some ordering.workerInstanceId then replacement
    else
      let ordered := { replacement with nativeIdentityOrdering := some ordering }
      match replacement.nativeIdentityOrdering.filter
        (·.workerInstanceId = ordering.workerInstanceId) with
      | some candidate =>
        if candidate.isAheadOf ordering then
          -- marks of the transport the writer did not advance are carried over
          { replacement with nativeIdentityOrdering := some { candidate with
              sequence := max candidate.sequence ordering.sequence
              workerSequence := max candidate.workerSequence ordering.workerSequence } }
        else if ordering.isAheadOf candidate then preserveNativeIdentity existing ordered
        else preserveNonemptyNativeIdentity existing ordered
      | none => preserveNativeIdentity existing ordered

/-! ### Other rules of the merge -/

/-- `keep_initial_input_settled`. -/
def keepInitialInputSettled : SessionRecord :=
  let reintroduced := replacement.transaction.any (·.isInitialInput) &&
    existing.transaction.all fun transaction => transaction.kind ≠ .create
  if reintroduced then { replacement with transaction := none } else replacement

/-- The worker instance of a record: the runtime record's, or else the
snapshot's. -/
def SessionRecord.workerInstanceId : Option String :=
  record.runtime.workerInstanceId.or (record.info.runtime.bind (·.workerInstanceId))

/-- `stale_runtime_snapshot`. -/
def staleRuntimeSnapshot : Bool :=
  match existing.info.runtime, replacement.info.runtime with
  | some current, some candidate =>
    if candidate.runtimeGeneration < current.runtimeGeneration then true
    else if current.runtimeGeneration < candidate.runtimeGeneration then false
    else existing.workerInstanceId.isSome && replacement.workerInstanceId ≠
      existing.workerInstanceId
  | _, _ => false

/-- What both session writes do to the record they replace. -/
def mergeSession (existing record : SessionRecord) : SessionRecord :=
  keepInitialInputSettled existing (preserveNewerNativeIdentity existing record)

/-- What a merge never takes from the stored record. -/
structure SessionRecord.SameRuntime (merged record : SessionRecord) : Prop where
  sessionId : merged.sessionId = record.sessionId
  state : merged.info.state = record.info.state
  snapshot : merged.info.runtime = record.info.runtime
  runtime : merged.runtime = record.runtime

theorem preserveNewerNativeIdentity_runtime :
    (preserveNewerNativeIdentity existing replacement).SameRuntime replacement := by
  unfold preserveNewerNativeIdentity
  split
  · exact ⟨rfl, rfl, rfl, rfl⟩
  · repeat' split
    all_goals exact ⟨rfl, rfl, rfl, rfl⟩

theorem mergeSession_runtime (existing record : SessionRecord) :
    (mergeSession existing record).SameRuntime record := by
  have h := preserveNewerNativeIdentity_runtime existing record
  unfold mergeSession keepInitialInputSettled
  dsimp only
  split
  · exact ⟨h.sessionId, h.state, h.snapshot, h.runtime⟩
  · exact h

/-- `mirror_worker_instance_id`. -/
def mirrorWorkerInstanceId : SessionRecord :=
  { record with info := { record.info with
      runtime := record.info.runtime.map fun runtime =>
        { runtime with
          workerInstanceId := runtime.workerInstanceId.or record.runtime.workerInstanceId } } }

/-! ### What a record is read back as -/

/-- `STORE_SCHEMA_VERSION`. -/
def storeSchemaVersion : ℕ := 16

/-- The record with the schema version every line is written with. -/
def Record.stamped : Record → Record
  | .session record => .session { record with schemaVersion := storeSchemaVersion }
  | record => record

/-- The record as the loader completes it. -/
def Record.mirrored : Record → Record
  | .session record => .session (mirrorWorkerInstanceId record)
  | record => record

/-- What a written record is loaded as. -/
def Record.normalised (record : Record) : Record := record.stamped.mirrored

theorem mirrorWorkerInstanceId_idem :
    mirrorWorkerInstanceId (mirrorWorkerInstanceId record) = mirrorWorkerInstanceId record := by
  unfold mirrorWorkerInstanceId
  cases record.info.runtime with
  | none => rfl
  | some runtime =>
    cases hid : runtime.workerInstanceId with
    | none => cases record.runtime.workerInstanceId <;> simp [hid]
    | some id => simp [hid]

@[simp] theorem Record.persistable_stamped (record : Record) :
    record.stamped.persistable = record.persistable := by
  cases record <;> rfl

@[simp] theorem Record.persistable_mirrored (record : Record) :
    record.mirrored.persistable = record.persistable := by
  cases record <;> rfl

/-- A record of the current schema that the loader completed is read back as
it is. -/
theorem Record.normalised_mirrored {record : Record} (h : record.stamped = record) :
    record.mirrored.normalised = record.mirrored := by
  cases record with
  | session record =>
    have hversion : storeSchemaVersion = record.schemaVersion :=
      congrArg SessionRecord.schemaVersion (Record.session.inj h)
    show Record.session (mirrorWorkerInstanceId
      { mirrorWorkerInstanceId record with schemaVersion := storeSchemaVersion }) = _
    rw [hversion]
    exact congrArg Record.session (mirrorWorkerInstanceId_idem record)
  | resume | worktree | project => rfl

theorem Record.normalised_normalised (record : Record) :
    record.normalised.normalised = record.normalised := by
  have hstamped : record.stamped.stamped = record.stamped := by cases record <;> rfl
  exact Record.normalised_mirrored hstamped

end Pohunek.Metadata
