/-
# Subagent claims

The start and stop claims of `crates/session-worker/src/server.rs`:
`start_subagent`, `stop_subagent` with `prune_terminal_subagents`, the
`OrphanStops` and the two branches of `serve_identity_hook_with_probe` that
apply an admissible claim. The ordering rule is `SubagentSequence` of
`crates/worker-protocol/src/hook_schema.rs`.

A claim comes here after the checks of the handler, which see to it that a
stop does not carry the phase `Running` (`TerminalPhase`). `Delivery.now` is
the worker's monotonic clock when the mark is taken, `Delivery.persisted`
whether the journal could be written.
-/
import Pohunek.Lib.Keyed

namespace Pohunek.Subagents

open Keyed

/-! ### Records -/

inductive SubagentPhase
  | running | completed | failed | cancelled | lost
  deriving DecidableEq

/-- A phase a stop may carry. -/
abbrev TerminalPhase := { phase : SubagentPhase // phase ≠ .running }

structure SubagentRecord where
  id : String
  parentId : Option String
  provider : String
  agentType : Option String
  phase : SubagentPhase
  sequence : ℕ
  revision : ℕ
  startedAtMs : ℕ
  updatedAtMs : ℕ
  finishedAtMs : Option ℕ
  deriving DecidableEq

/-- The part of `JournalRecord` the claims are about. -/
structure Journal where
  subagents : List SubagentRecord
  subagentRevision : ℕ

structure SubagentClaim where
  provider : String
  id : String
  sequence : ℕ
  deriving DecidableEq

/-- `item.provider == claim.provider && item.id == claim.id`. -/
def SubagentClaim.names (claim : SubagentClaim) (item : SubagentRecord) : Bool :=
  item.provider == claim.provider && item.id == claim.id

/-- `ACTIVE_SUBAGENT_CAPACITY`. -/
def activeSubagentCapacity : ℕ := 64

/-- `TERMINAL_SUBAGENT_CAPACITY`. -/
def terminalSubagentCapacity : ℕ := 32

/-- `ORPHAN_STOP_CAPACITY`. -/
def orphanStopCapacity : ℕ := 64

/-- `u64::saturating_add(1)`. -/
def saturatingSucc (n : ℕ) : ℕ := min (n + 1) (2 ^ 64 - 1)

/-! ### Outcomes -/

inductive SubagentReason
  | duplicateStart | stopWithoutStart | staleSequence | notRunning | capacity
  deriving DecidableEq

inductive SubagentOutcome
  | applied
  | ignored (reason : SubagentReason) (recorded : Option ℕ) (advanced : Bool)
  | refused (reason : SubagentReason) (recorded : Option ℕ)
  deriving DecidableEq

namespace SubagentOutcome

def acknowledged : SubagentOutcome → Bool
  | refused _ _ => false
  | _ => true

def persists : SubagentOutcome → Bool
  | applied | ignored _ _ true => true
  | _ => false

def reason : SubagentOutcome → Option SubagentReason
  | applied => none
  | ignored reason _ _ | refused reason _ => some reason

end SubagentOutcome

/-! ### The ordering rule -/

inductive SubagentSequence
  | stopAfterStart
  deriving DecidableEq

namespace SubagentSequence

def admitsStart : SubagentSequence → Option ℕ → ℕ → Bool
  | stopAfterStart, some recorded, reported => recorded < reported
  | stopAfterStart, none, _ => true

def admitsStop : SubagentSequence → Option ℕ → ℕ → Bool
  | stopAfterStart, some recorded, reported => recorded < reported
  | stopAfterStart, none, _ => true

end SubagentSequence

/-- `background::clamp_mark`. -/
def subagentMark (now sequence : ℕ) : ℕ := min sequence now

structure StopPolicy where
  requiresStart : Bool
  isTurn : Bool
  deriving DecidableEq

/-! ### The two claims -/

/-- The running subagents of a provider. -/
def Journal.running (journal : Journal) (provider : String) : List SubagentRecord :=
  journal.subagents.filter fun item => item.provider == provider && item.phase == .running

/-- The record of the claim's subagent is changed. -/
def Journal.update (journal : Journal) (claim : SubagentClaim) (f : SubagentRecord → SubagentRecord)
    (revision : ℕ) : Journal :=
  ⟨modifyFirst claim.names f journal.subagents, revision⟩

/-- A record is added. -/
def Journal.push (journal : Journal) (record : SubagentRecord) (revision : ℕ) : Journal :=
  ⟨journal.subagents ++ [record], revision⟩

namespace SubagentRecord

/-- Only the sequence moves; the public state stays. -/
def advance (mark : ℕ) (record : SubagentRecord) :
    SubagentRecord := { record with sequence := mark }

/-- A terminal subagent runs again; a field the claim omits is kept. -/
def reopen (parentId agentType : Option String) (mark revision occurredAtMs : ℕ)
    (subagent : SubagentRecord) : SubagentRecord :=
  { subagent with
    phase := .running
    sequence := mark
    revision := revision
    updatedAtMs := occurredAtMs
    finishedAtMs := none
    parentId := parentId.or subagent.parentId
    agentType := agentType.or subagent.agentType }

def finish (phase : TerminalPhase) (mark revision occurredAtMs : ℕ) (subagent : SubagentRecord) :
    SubagentRecord :=
  { subagent with
    phase := phase.val
    sequence := mark
    revision := revision
    updatedAtMs := occurredAtMs
    finishedAtMs := some occurredAtMs }

end SubagentRecord

def startSubagent (now : ℕ) (journal : Journal) (rule : SubagentSequence) (claim : SubagentClaim)
    (parentId agentType : Option String) (orphanStop : Option ℕ) (occurredAtMs : ℕ) :
    Journal × SubagentOutcome :=
  let found := journal.subagents.find? claim.names
  let recorded := match found with
    | some record => some record.sequence
    | none => orphanStop
  let mark := subagentMark now claim.sequence
  if !rule.admitsStart recorded claim.sequence then
  (journal, .ignored .staleSequence recorded false)
  else if found.any (·.phase == .running) then
    -- a stop of the earlier run, delivered later, is stale from here
    (journal.update claim (.advance mark) journal.subagentRevision,
      .ignored .duplicateStart recorded true)
  else if activeSubagentCapacity ≤ (journal.running claim.provider).length then
    (journal, .refused .capacity recorded)
  else
    let revision := saturatingSucc journal.subagentRevision
    match found with
    | some _ => (journal.update claim
      (.reopen parentId agentType mark revision occurredAtMs) revision, .applied)
    | none =>
      (journal.push
        { id := claim.id
          parentId := parentId
          provider := claim.provider
          agentType := agentType
          phase := .running
          sequence := mark
          revision := revision
          startedAtMs := occurredAtMs
          updatedAtMs := occurredAtMs
          finishedAtMs := none } revision, .applied)

def pruneTerminalSubagents (journal : Journal) : Journal :=
  let terminal := ((journal.subagents.filter (·.phase != .running)).map (·.revision)).mergeSort
    fun left right => right ≤ left
  match terminal[terminalSubagentCapacity]? with
  | some cutoff =>
    { journal with subagents := journal.subagents.filter fun item => item.phase == .running ||
      cutoff < item.revision }
  | none => journal

def stopSubagent (now : ℕ) (journal : Journal) (rule : SubagentSequence) (policy : StopPolicy)
    (claim : SubagentClaim) (phase : TerminalPhase) (occurredAtMs : ℕ) :
    Journal × SubagentOutcome :=
  let found := journal.subagents.find? claim.names
  let recorded := found.map (·.sequence)
  let mark := subagentMark now claim.sequence
  if found.isNone && policy.requiresStart then (journal, .ignored .stopWithoutStart recorded false)
  else if !rule.admitsStop recorded claim.sequence then
    (journal, .ignored .staleSequence recorded false)
  else if found.any (·.phase != .running) && !policy.isTurn then
    -- a start of the earlier run, delivered later, is stale from here
    (journal.update claim (.advance mark) journal.subagentRevision,
      .ignored .notRunning recorded true)
  else
    let revision := saturatingSucc journal.subagentRevision
    match found with
    | some _ =>
      (pruneTerminalSubagents
        (journal.update claim (.finish phase mark revision occurredAtMs) revision), .applied)
    | none =>
      (pruneTerminalSubagents (journal.push
        { id := claim.id
          parentId := none
          provider := claim.provider
          agentType := none
          phase := phase.val
          sequence := mark
          revision := revision
          startedAtMs := occurredAtMs
          updatedAtMs := occurredAtMs
          finishedAtMs := some occurredAtMs } revision), .applied)

/-! ### Stops without a start -/

structure OrphanStop where
  provider : String
  id : String
  sequence : ℕ
  deriving DecidableEq

abbrev OrphanStops := List OrphanStop

namespace OrphanStops

def names (provider id : String) (entry : OrphanStop) :
    Bool := entry.provider == provider && entry.id == id

variable (entries : OrphanStops) (provider id : String)

def sequence : Option ℕ :=
  (entries.find? (names provider id)).map (·.sequence)

def record (sequence : ℕ) : OrphanStops :=
  if (entries.find? (names provider id)).isSome then
    modifyFirst (names provider id)
      (fun entry => { entry with sequence := max entry.sequence sequence }) entries
  else
    -- beyond the capacity the oldest stop goes
    (if orphanStopCapacity ≤ entries.length then entries.drop 1 else entries) ++
      [⟨provider, id, sequence⟩]

def forget : OrphanStops :=
  entries.filter fun entry => !names provider id entry

end OrphanStops

/-! ### The worker -/

structure Worker where
  journal : Journal
  orphanStops : OrphanStops

/-- `HookRequest::SubagentStart` and `HookRequest::SubagentStop`, admitted. -/
inductive Hook
  | start (claim : SubagentClaim) (parentId agentType : Option String)
  | stop (claim : SubagentClaim) (outcome : Option TerminalPhase)

structure Delivery where
  hook : Hook
  now : ℕ
  occurredAtMs : ℕ
  persisted : Bool

def completed : TerminalPhase := ⟨.completed, by decide⟩

/-- An admitted claim is applied. Without an outcome the journal could not be
written, and nothing has changed. -/
def deliver (rule : SubagentSequence) (policy : String → StopPolicy) (w : Worker) (d : Delivery) :
    Worker × Option SubagentOutcome :=
  match d.hook with
  | .start claim parentId agentType =>
    let (journal, outcome) := startSubagent d.now w.journal rule claim parentId agentType
      (w.orphanStops.sequence claim.provider claim.id) d.occurredAtMs
    if outcome.persists && !d.persisted then (w, none)
    else
      ({ journal := if outcome.persists then journal else w.journal
         orphanStops :=
           if outcome = .applied then w.orphanStops.forget claim.provider claim.id
             else w.orphanStops },
        some outcome)
  | .stop claim phase =>
    let (journal, outcome) := stopSubagent d.now w.journal rule (policy claim.provider) claim
      (phase.getD completed) d.occurredAtMs
    if outcome.persists && !d.persisted then (w, none)
    else
      ({ journal := if outcome.persists then journal else w.journal
         orphanStops :=
           if outcome.reason = some .stopWithoutStart then
             w.orphanStops.record claim.provider claim.id (subagentMark d.now claim.sequence)
           else w.orphanStops },
        some outcome)

def deliverAll (rule : SubagentSequence) (policy : String → StopPolicy) (w : Worker)
    (ds : List Delivery) : Worker :=
  ds.foldl (fun w d => (deliver rule policy w d).1) w

end Pohunek.Subagents
