/-
# Notification records

The record of `crates/protocol/src/notification.rs` and the helpers of
`crates/daemon/src/notifications/mod.rs` and `projector.rs` that the store
uses: lifecycle transitions, dedupe keys, source ranks, the attention window
and the tombstones a compaction keeps.

A timestamp is read by `Rfc3339`, the parser of the `time` crate, as
nanoseconds; a moment of the process clock is a number.
-/
import Pohunek.Output.Ring

namespace Pohunek.Notifications

open Output (u64Max)

/-! ### Text -/

/-- `str::strip_prefix`. -/
def stripPrefix (start s : String) : Option String :=
  if start.toList.isPrefixOf s.toList then
    some (String.ofList (s.toList.drop start.toList.length)) else none

/-- `str::split_once` at a character. -/
def splitOnce (c : Char) (s : String) : Option (String × String) :=
  match s.toList.span (· != c) with
  | (_, []) => none
  | (before, _ :: rest) => some (String.ofList before, String.ofList rest)

/-- `str::eq_ignore_ascii_case`. -/
def eqIgnoreAsciiCase (a b : String) :
    Bool := a.toList.map Char.toLower == b.toList.map Char.toLower

/-- The value of a non-empty list of decimal digits. -/
def digitsValue : List Char → Option ℕ
  | [] => none
  | cs => cs.foldl (fun acc c => acc.bind fun n => if c.isDigit then
    some (10 * n + (c.toNat - 48)) else none)
      (some 0)

/-- `str::parse::<u64>`, which takes one leading plus sign. -/
def parseU64 (s : String) : Option ℕ :=
  let digits := match s.toList with
    | '+' :: rest => digitsValue rest
    | cs => digitsValue cs
  digits.bind fun n => if n ≤ u64Max then some n else none

/-- `parse_decimal`: only the canonical spelling. -/
def parseDecimal (s : String) : Option ℕ :=
  (parseU64 s).bind fun n => if toString n = s then some n else none

/-! ### The record -/

inductive NotificationKind
  | agentBlocked | approvalRequired | turnCompleted | sessionFinished | error | system | unknown
  deriving DecidableEq

def NotificationKind.asStr : NotificationKind → String
  | agentBlocked => "agent_blocked"
  | approvalRequired => "approval_required"
  | turnCompleted => "turn_completed"
  | sessionFinished => "session_finished"
  | error => "error"
  | system => "system"
  | unknown => "unknown"

inductive NotificationSeverity
  | info | success | warning | error | actionRequired | unknown
  deriving DecidableEq

inductive NotificationStatus
  | unread | read | acknowledged | archived | deleted | unknown
  deriving DecidableEq

/-- `matches!(status, Unread | Read)`. -/
def NotificationStatus.active : NotificationStatus → Bool
  | unread | read => true
  | _ => false

structure NotificationSource where
  provider : String
  providerEvent : String
  hostLocalSourceId : String
  deriving DecidableEq

structure NotificationRecord where
  id : String
  source : NotificationSource
  kind : NotificationKind
  severity : NotificationSeverity
  status : NotificationStatus
  title : String
  body : String
  metadata : List (String × String)
  createdAt : String
  sessionId : Option String
  agentKind : Option String
  sourceId : Option String
  dedupeKey : Option String
  projectId : Option String
  readAt : Option String
  ackedAt : Option String
  archivedAt : Option String
  deletedAt : Option String
  supersededBy : Option String
  hookAdmitted : Bool
  deriving DecidableEq

/-- The errors the store answers. -/
inductive NotificationError
  | storeIo (path : String)
  | storeParse (path : String) (line : ℕ) (source : String)
  | unavailable (reason : String)
  | notFound (id : String)
  | invalidTransition (id : String) (current requested : NotificationStatus)
  | invalidTimestamp (value : String)
  | invalidCursor (cursor : String)
  deriving DecidableEq

/-- `NotificationError::to_string` of the two errors an unreadable log gives. -/
def NotificationError.message : NotificationError → String
  | storeParse path line source =>
    "notification store parse error at " ++ path ++ ":" ++ toString line ++ ": " ++ source
  | unavailable reason => "notifications are unavailable: " ++ reason
  | _ => ""

/-! ### Lifecycle -/

def applyStatus (record : NotificationRecord) (status : NotificationStatus) (now : String) :
    NotificationRecord :=
  let record := { record with status := status }
  match status with
  | .unread | .unknown => record
  | .read => { record with readAt := some now }
  | .acknowledged => { record with ackedAt := some now }
  | .archived => { record with archivedAt := some now }
  | .deleted => { record with deletedAt := some now }

def isValidStatusTransition (current requested : NotificationStatus) : Bool :=
  if requested = .deleted then current ≠ .deleted
  else if requested = .archived then current = .unread ∨ current = .read ∨ current = .acknowledged
  else (current = .unread ∧ requested = .read) ∨ (current = .read ∧ requested = .acknowledged) ∨
    (current = .unread ∧ requested = .acknowledged)

@[simp] theorem applyStatus_id (r : NotificationRecord) (status : NotificationStatus)
    (now : String) : (applyStatus r status now).id = r.id := by
  cases status <;> rfl

@[simp] theorem applyStatus_status (r : NotificationRecord) (status : NotificationStatus)
    (now : String) : (applyStatus r status now).status = status := by
  cases status <;> rfl

/-- A deleted record never leaves that state. -/
theorem not_valid_from_deleted (requested : NotificationStatus) :
    isValidStatusTransition .deleted requested = false := by
  cases requested <;> rfl

/-! ### Keys and ranks -/

def attentionDedupeKeyPrefix : String := "attention"

def turnDedupeKeyPrefix : String := "turn"

def isAttentionKind (kind : NotificationKind) : Bool := kind = .agentBlocked ∨
    kind = .approvalRequired

def reservedDedupeSessionSuffix (dedupeKey : String) : Option (String × String) :=
  [attentionDedupeKeyPrefix, turnDedupeKeyPrefix].findSome? fun start =>
    if dedupeKey = start then some (start, "")
    else ((stripPrefix start dedupeKey).bind (stripPrefix ":")).map fun suffix => (start, suffix)

/-- The session keys `attention:<id>` and `turn:<id>`. -/
def isSessionKey (start dedupeKey : String) : Bool :=
  match reservedDedupeSessionSuffix dedupeKey with
  | some (found, suffix) => found = start ∧ suffix ≠ ""
  | none => false

def isAttentionDedupeKey (dedupeKey : String) :
    Bool := isSessionKey attentionDedupeKeyPrefix dedupeKey

def isTurnDedupeKey (dedupeKey : String) : Bool := isSessionKey turnDedupeKeyPrefix dedupeKey

def sameSourceNamespace (left right : NotificationSource) : Bool :=
  left.provider = right.provider ∧ left.providerEvent = right.providerEvent

/-- The identity providers of the registered hook schemas. -/
def hookedProviders : List String := ["shell", "codex", "claude", "hermes", "muse", "cline"]

def isHookProvider (provider : String) : Bool := hookedProviders.contains provider

inductive SourcePriority
  | projector | user | provider
  deriving DecidableEq

def sourcePriority (record : NotificationRecord) : SourcePriority :=
  if record.hookAdmitted || isHookProvider record.source.provider then .provider
  else if eqIgnoreAsciiCase record.source.provider "pohunek" ||
      eqIgnoreAsciiCase record.source.provider "daemon" then .projector
  else .user

/-! ### Time -/

/-- The RFC 3339 parser, in nanoseconds. -/
structure Rfc3339 where
  parse : String → Option ℤ

def parseTimestamp (E : Rfc3339) (value : String) : Except NotificationError ℤ :=
  match E.parse value with
  | some t => .ok t
  | none => .error (.invalidTimestamp value)

/-- `Duration::whole_seconds` rounds towards zero. -/
def wholeSeconds (nanoseconds : ℤ) : ℤ := nanoseconds.tdiv 1000000000

def insideAttentionWindow (E : Rfc3339) (existing : NotificationRecord) (incomingCreatedAt : ℤ)
    (windowSecs : ℕ) : Except NotificationError Bool := do
  let existingCreatedAt ← parseTimestamp E existing.createdAt
  return decide ((wholeSeconds (incomingCreatedAt - existingCreatedAt)).natAbs ≤ windowSecs)

/-! ### Tombstones -/

def projectorProvider : String := "pohunek"

def projectorSourceIdPrefix (sessionId : String) (kind : NotificationKind) : String :=
  "projector" ++ ":" ++ sessionId ++ ":" ++ kind.asStr ++ ":"

inductive TransitionKey
  | epoch (n : ℕ)
  | generation (g : ℕ)
  | unproven (g ordinal : ℕ)
  deriving DecidableEq

def parseTransitionKey (key : String) : Option TransitionKey :=
  match stripPrefix "u" key with
  | some rest => do
    let (ordinal, generation) ← splitOnce '_' rest
    return .unproven (← parseDecimal generation) (← parseU64 ordinal)
  | none =>
    match stripPrefix "g" key with
    | some generation => (parseDecimal generation).map .generation
    | none => (parseU64 key).map .epoch

structure SessionRuntime where
  runtimeGeneration : ℕ
  startedAt : Option String
  lastConnectedAt : Option String
  deriving DecidableEq

structure SessionInfo where
  id : String
  runtime : Option SessionRuntime
  deriving DecidableEq

inductive DesiredState
  | running | stopped | removed
  deriving DecidableEq

/-- A session of the metadata store. -/
structure SessionRecord where
  sessionId : String
  desiredState : DesiredState
  info : SessionInfo
  deriving DecidableEq

def isTerminalKind (kind : NotificationKind) : Bool := kind = .error ∨ kind = .sessionFinished

def isTerminalTombstone (record : NotificationRecord) : Bool :=
  record.status = .deleted ∧ record.source.provider = projectorProvider ∧
    isTerminalKind record.kind ∧ record.sessionId.isSome ∧ record.sourceId.isSome

def sessionRuntimeGeneration (session : SessionInfo) : Option ℕ :=
  session.runtime.map (·.runtimeGeneration)

def epochKeyedRecordReportsRuntime (E : Rfc3339) (createdAt : ℤ) (session : SessionInfo) : Bool :=
  match session.runtime with
  | none => false
  | some runtime =>
    match runtime.startedAt.bind E.parse with
    | some startedAt => startedAt ≤ createdAt
    | none => false

def unprovenReportCoversLoss (E : Rfc3339) (createdAt : ℤ) (generation : ℕ)
    (session : SessionInfo) : Bool :=
  match session.runtime with
  | none => false
  | some runtime =>
    if runtime.runtimeGeneration ≠ generation then false
    else
      match runtime.lastConnectedAt with
      | none => true
      | some connectedAt =>
        match E.parse connectedAt with
        | some connectedAt => connectedAt ≤ createdAt
        | none => false

def terminalTombstoneMatches (E : Rfc3339) (record : NotificationRecord)
    (session : SessionInfo) : Bool :=
  if isTerminalTombstone record = false then false
  else
    match (record.sourceId.bind (stripPrefix (projectorSourceIdPrefix session.id record.kind))).bind
        parseTransitionKey with
    | none => false
    | some (.generation generation) => sessionRuntimeGeneration session = some generation
    | some (.unproven generation _) =>
      match E.parse record.createdAt with
      | some createdAt => unprovenReportCoversLoss E createdAt generation session
      | none => false
    | some (.epoch _) =>
      match E.parse record.createdAt with
      | some createdAt => epochKeyedRecordReportsRuntime E createdAt session
      | none => false

end Pohunek.Notifications
