/-
# The notification store

`NotificationStore` of `crates/daemon/src/notifications/store.rs`: the records
in memory, the append-only log on disk, the operations and `open`. Every
operation holds the state lock for its whole effect, so one call is one step.

The log is the bytes of the file. `Json` is `serde_json` for `StoreAction`.
An append may fail after writing a part of its line: `faults` says what
happens to the appends of a call, in order, and an append without an entry
succeeds. The format marker and the policy are files of their own; `Dir`
carries the answers of their checks. A compaction always succeeds here: its
file is written whole before it replaces the log.
-/
import Pohunek.Notifications.Record
import Pohunek.Lib.LineLog
import Pohunek.Lib.Run

namespace Pohunek.Notifications

/-- The records by id, in the order of the ids. -/
abbrev Records := Std.ExtTreeMap String NotificationRecord

inductive StoreAction
  | created (record : NotificationRecord)
  | createdWithUpdates (record : NotificationRecord) (updated : List NotificationRecord)
  | updated (record : NotificationRecord)
  | deleted (record : NotificationRecord)
  deriving DecidableEq

variable (records : Records)

/-- `records.insert(record.id, record)`. -/
def Records.put (record : NotificationRecord) : Records :=
  records.insert record.id record

/-- `records.values()`, in the order of the ids. -/
def Records.list : List NotificationRecord := records.toList.map Prod.snd

def applyAction : StoreAction → Records
  | .created record | .updated record | .deleted record => records.put record
  | .createdWithUpdates record updated => updated.foldl Records.put (records.put record)

/-! ### The log -/

/-- `serde_json::to_string` and `serde_json::from_str` for actions. -/
structure Json where
  encode : StoreAction → List Char
  parse : List Char → LineLog.Parsed StoreAction

/-- `char::is_whitespace`. -/
def isWhitespace (c : Char) : Bool :=
  (9 ≤ c.toNat ∧ c.toNat ≤ 13) ∨ (0x2000 ≤ c.toNat ∧ c.toNat ≤ 0x200a) ∨
    c.toNat ∈ [0x20, 0x85, 0xa0, 0x1680, 0x2028, 0x2029, 0x202f, 0x205f, 0x3000]

/-- `line.strip_suffix('\r').unwrap_or(line)`. -/
def stripCarriageReturn (line : List Char) : List Char :=
  if line.getLast? = some '\r' then line.dropLast else line

/-- One action a line. -/
def Json.format (J : Json) : LineLog.Format Char StoreAction where
  sep := '\n'
  clean := stripCarriageReturn
  blank line := line.all isWhitespace
  encode := J.encode
  parse := J.parse

/-- The bytes of a text. -/
def encodeUtf8 (text : List Char) : ByteArray := (text.flatMap String.utf8EncodeChar).toByteArray

structure ReplayState where
  records : Records
  actionCount : ℕ

def ReplayState.apply (s : ReplayState) (action : StoreAction) : ReplayState :=
  ⟨applyAction s.records action, s.actionCount + 1⟩

/-- `replay`: the file has to be text, and every line but a torn last one an
action. -/
def replay (J : Json) (path : String) (log : ByteArray) : Except NotificationError ReplayState :=
  match log.utf8Decode? with
  | none => .error (.unavailable ("the notification log " ++ path ++ " is not text"))
  | some content =>
    match J.format.scan ReplayState.apply 1 ⟨∅, 0⟩ (LineLog.split '\n' content.toList) with
    | .ok replayed => .ok replayed
    | .error (line, source) => .error (.storeParse path line source)

/-! ### The store -/

/-- The notification directory: its log, and what the format marker and the
policy file say against using it. -/
structure Dir where
  path : String
  unsupportedFormat : Option String
  unreadablePolicy : Option String
  log : ByteArray

structure Store where
  path : String
  log : ByteArray
  faults : List (Option ℕ)
  /-- Whether the append handle is open. -/
  file : Bool
  records : Records
  actionCount : ℕ
  sourceWarningLogged : Bool
  contributions : Std.ExtTreeMap String ℕ
  unavailable : Option String

namespace Store

/-- A store this build does not use. -/
def unused (dir : Dir) (reason : String) : Store where
  path := dir.path
  log := dir.log
  faults := []
  file := false
  records := ∅
  actionCount := 0
  sourceWarningLogged := false
  contributions := ∅
  unavailable := some reason

/-- `NotificationStore::open`. -/
def «open» (J : Json) (dir : Dir) : Store :=
  match dir.unsupportedFormat with
  | some reason => unused dir reason
  | none =>
    match dir.unreadablePolicy with
    | some reason => unused dir reason
    | none =>
      match replay J dir.path dir.log with
      | .error e => unused dir e.message
      | .ok replayed =>
        { path := dir.path
          log := dir.log
          faults := []
          file := true
          records := replayed.records
          actionCount := replayed.actionCount
          sourceWarningLogged := false
          contributions := ∅
          unavailable := none }

def ensureAvailable (s : Store) : Except NotificationError Unit :=
  match s.unavailable with
  | some reason => .error (.unavailable reason)
  | none => .ok ()

variable (J : Json) (E : Rfc3339)

/-- `append_action_locked`. A fault writes a part of the line and leaves the
records. -/
def appendActionLocked (s : Store) (action : StoreAction) : Store × Except NotificationError Unit :=
  if s.file = false then (s, .error (.unavailable "the notification store is not open"))
  else
    let line := encodeUtf8 (J.format.line action)
    match s.faults with
    | some written :: faults =>
      ({ s with log := s.log ++ line.extract 0 written, faults := faults },
        .error (.storeIo s.path))
    | faults =>
      ({ s with
          log := s.log ++ line
          faults := faults.tail
          records := applyAction s.records action
          actionCount := s.actionCount + 1 }, .ok ())

/-- `for action in actions { append_action_locked(..)? }`. -/
def appendAll (s : Store) : List StoreAction → Store × Except NotificationError Unit
  | [] => (s, .ok ())
  | action :: actions =>
    match s.appendActionLocked J action with
    | (s, .error e) => (s, .error e)
    | (s, .ok ()) => s.appendAll actions

def noteContribution (s : Store) (candidate : NotificationRecord) (id : String) (minted : ℕ) : Store :=
  if sourcePriority candidate ≠ .projector then
    { s with contributions := s.contributions.insert id (max (s.contributions[id]?.getD minted) minted) }
  else s

def existedAt (s : Store) (record : NotificationRecord) (asOf : Option ℕ) : Bool :=
  match asOf with
  | none => true
  | some mintedBefore =>
    match s.contributions[record.id]? with
    | none => true
    | some contributed => contributed ≤ mintedBefore

end Store

def findExistingSource (candidate : NotificationRecord) : Option NotificationRecord :=
  match candidate.sourceId with
  | none => none
  | some sourceId => records.list.find? fun record =>
      record.status ≠ .deleted ∧ record.sourceId = some sourceId ∧
        sameSourceNamespace record.source candidate.source

def supersedeUnreadRecords (dedupeKey : String) (kind : NotificationKind)
    (supersededBy now : String) : List NotificationRecord :=
  (records.list.filter fun record =>
    record.kind = kind ∧ record.status = .unread ∧
      record.dedupeKey = some dedupeKey).map fun record =>
      { applyStatus record .acknowledged now with supersededBy := some supersededBy }

def resolveKeyMatchesKind (dedupeKey : String) (kind : NotificationKind) : Bool :=
  if isAttentionDedupeKey dedupeKey then isAttentionKind kind
  else isTurnDedupeKey dedupeKey ∧ kind = .turnCompleted

def upgradeProjector (existing replacement : NotificationRecord) : NotificationRecord :=
  { existing with
    source := replacement.source
    kind := replacement.kind
    severity := replacement.severity
    title := replacement.title
    body := replacement.body
    metadata := replacement.metadata
    sessionId := replacement.sessionId
    agentKind := replacement.agentKind
    sourceId := replacement.sourceId
    dedupeKey := replacement.dedupeKey
    projectId := replacement.projectId
    hookAdmitted := replacement.hookAdmitted
    supersededBy := none }

inductive CreateOutcome
  | created (record : NotificationRecord)
  | createdWithUpdates (record : NotificationRecord) (updated : List NotificationRecord)
  | existing (record : NotificationRecord)
  | updated (record : NotificationRecord)
  deriving DecidableEq

inductive UpdateOutcome
  | updated (record : NotificationRecord)
  | deleted (record : NotificationRecord)
  deriving DecidableEq

/-- What becomes of the record a create meets: it is upgraded or kept. -/
inductive Merge
  | upgrade (existing : NotificationRecord)
  | keep (existing : NotificationRecord)
  deriving DecidableEq

/-- The loop of `create_or_dedupe` over the records. -/
def findMerge (E : Rfc3339) (incomingPriority : SourcePriority) (dedupeKey : String)
    (incomingCreatedAt : ℤ) (windowSecs : ℕ) :
    List NotificationRecord → Except NotificationError (Option Merge)
  | [] => .ok none
  | existing :: rest =>
    if existing.status.active = false then
      findMerge E incomingPriority dedupeKey incomingCreatedAt windowSecs rest
    else if existing.dedupeKey ≠ some dedupeKey then
      findMerge E incomingPriority dedupeKey incomingCreatedAt windowSecs rest
    else
      match insideAttentionWindow E existing incomingCreatedAt windowSecs with
      | .error e => .error e
      | .ok false => findMerge E incomingPriority dedupeKey incomingCreatedAt windowSecs rest
      | .ok true =>
        match incomingPriority, sourcePriority existing with
        | .provider, .projector => .ok (some (.upgrade existing))
        | .projector, .provider | .provider, .provider | .projector, .projector =>
          .ok (some (.keep existing))
        | .user, _ | .provider, .user | .projector, .user =>
          findMerge E incomingPriority dedupeKey incomingCreatedAt windowSecs rest

namespace Store

variable (J : Json) (E : Rfc3339)

variable (s : Store)

/-- The end of a create: append the action, note the contribution, answer. -/
def commit (action : StoreAction) (candidate : NotificationRecord) (id : String) (minted : ℕ)
    (outcome : CreateOutcome) : Store × Except NotificationError CreateOutcome :=
  match s.appendActionLocked J action with
  | (s, .error e) => (s, .error e)
  | (s, .ok ()) => (s.noteContribution candidate id minted, .ok outcome)

def createSupersedingTurns (candidate : NotificationRecord) (dedupeKey : String)
    (minted : ℕ) : Store × Except NotificationError CreateOutcome :=
  let updated := supersedeUnreadRecords s.records dedupeKey candidate.kind candidate.id
    candidate.createdAt
  if updated = [] then
    s.commit J (.created candidate) candidate candidate.id minted (.created candidate)
  else
    s.commit J (.createdWithUpdates candidate updated) candidate candidate.id minted
      (.createdWithUpdates candidate updated)

def createOrDedupe (candidate : NotificationRecord) (attentionWindowSecs minted : ℕ) :
    Store × Except NotificationError CreateOutcome :=
  match s.ensureAvailable with
  | .error e => (s, .error e)
  | .ok () =>
    match findExistingSource s.records candidate with
    | some existing => (s, .ok (.existing existing))
    | none =>
      match candidate.dedupeKey with
      | none => s.commit J (.created candidate) candidate candidate.id minted (.created candidate)
      | some dedupeKey =>
        if isTurnDedupeKey dedupeKey ∧ candidate.kind = .turnCompleted then
          s.createSupersedingTurns J candidate dedupeKey minted
        else
          match parseTimestamp E candidate.createdAt with
          | .error e => (s, .error e)
          | .ok incomingCreatedAt =>
            match findMerge E (sourcePriority candidate) dedupeKey incomingCreatedAt
                attentionWindowSecs s.records.list with
            | .error e => (s, .error e)
            | .ok (some (.upgrade existing)) =>
              s.commit J (.updated (upgradeProjector existing candidate)) candidate
                (upgradeProjector existing candidate).id minted
                (.updated (upgradeProjector existing candidate))
            | .ok (some (.keep existing)) =>
              (s.noteContribution candidate existing.id minted, .ok (.existing existing))
            | .ok none =>
              s.commit J (.created candidate) candidate candidate.id minted (.created candidate)

def supersedeTurnsForAttention (attention : NotificationRecord) (now : String) :
    Store × Except NotificationError (List NotificationRecord) :=
  if isAttentionKind attention.kind = false then (s, .ok [])
  else if attention.status.active = false then (s, .ok [])
  else
    match attention.sessionId with
    | none => (s, .ok [])
    | some sessionId =>
      let updated := supersedeUnreadRecords s.records (turnDedupeKeyPrefix ++ ":" ++ sessionId)
        .turnCompleted attention.id now
      match s.appendAll J (updated.map .updated) with
      | (s, .error e) => (s, .error e)
      | (s, .ok ()) => (s, .ok updated)

def updateTransition (id : String) (status : NotificationStatus) (now : String) :
    Store × Except NotificationError UpdateOutcome :=
  match s.ensureAvailable with
  | .error e => (s, .error e)
  | .ok () =>
    match s.records[id]? with
    | none => (s, .error (.notFound id))
    | some record =>
      if isValidStatusTransition record.status status = false then
        (s, .error (.invalidTransition id record.status status))
      else
        let record := applyStatus record status now
        let (action, outcome) : StoreAction × UpdateOutcome :=
          if record.status = .deleted then (.deleted record, .deleted record)
          else (.updated record, .updated record)
        match s.appendActionLocked J action with
        | (s, .error e) => (s, .error e)
        | (s, .ok ()) => (s, .ok outcome)

def deleteTransition (id : String) (now : String) :
    Store × Except NotificationError (Option NotificationRecord) :=
  match s.ensureAvailable with
  | .error e => (s, .error e)
  | .ok () =>
    match s.records[id]? with
    | none => (s, .ok none)
    | some record =>
      if record.status = .deleted then (s, .ok none)
      else
        match s.appendActionLocked J (.deleted (applyStatus record .deleted now)) with
        | (s, .error e) => (s, .error e)
        | (s, .ok ()) => (s, .ok (some (applyStatus record .deleted now)))

/-- The loop of `resolve_session_notifications` over the matching ids. -/
def resolveLoop (now : String) : Store → List String → List NotificationRecord →
    Store × Except NotificationError (List NotificationRecord)
  | s, [], resolved => (s, .ok resolved)
  | s, id :: ids, resolved =>
    match s.records[id]? with
    | none => resolveLoop now s ids resolved
    | some record =>
      match s.appendActionLocked J (.updated (applyStatus record .acknowledged now)) with
      | (s, .error e) => (s, .error e)
      | (s, .ok ()) => resolveLoop now s ids (resolved ++ [applyStatus record .acknowledged now])

def resolveSessionNotifications (dedupeKey now : String) (asOf : Option ℕ) :
    Store × Except NotificationError (List NotificationRecord) :=
  let matchingIds := (s.records.list.filter fun record =>
    record.dedupeKey = some dedupeKey ∧ resolveKeyMatchesKind dedupeKey record.kind ∧
      record.status.active ∧ s.existedAt record asOf).map (·.id)
  match s.resolveLoop J now matchingIds [] with
  | (s, .error e) => (s, .error e)
  | (s, .ok resolved) =>
    ({ s with contributions := s.contributions.filter fun id _ =>
        match s.records[id]? with
        | some record => record.status.active
        | none => false }, .ok resolved)

/-! ### Compaction -/

/-- The newest tombstone of each session and kind, in the order of the keys. -/
def newestTombstones (E : Rfc3339) (sources : List SessionRecord)
    (deleted : List NotificationRecord) : List NotificationRecord :=
  let sources : Std.ExtTreeMap String SessionInfo :=
    (sources.filter fun source => source.desiredState ≠ .removed).foldl
      (fun m source => m.insert source.sessionId source.info) ∅
  let terminal : Std.ExtTreeMap (List String) NotificationRecord :=
    deleted.foldl (fun terminal record =>
      match record.sessionId.bind fun id => sources[id]? with
      | none => terminal
      | some session =>
        if terminalTombstoneMatches E record session = false then terminal
        else
          let key := [session.id, record.kind.asStr]
          let newer := match terminal[key]? with
            | none => true
            | some existing => existing.createdAt < record.createdAt ∨
                (existing.createdAt = record.createdAt ∧ existing.id < record.id)
          if newer then terminal.insert key record else terminal) ∅
  terminal.toList.map Prod.snd

/-- `terminal_tombstones`; `sources` is `none` when the metadata store could
not be read whole. -/
def terminalTombstones (sources : Option (List SessionRecord)) :
    Store × List NotificationRecord :=
  let deleted := s.records.list.filter isTerminalTombstone
  if deleted = [] then (s, [])
  else
    match sources with
    | none => ({ s with sourceWarningLogged := true }, deleted)
    | some sources => (s, newestTombstones E sources deleted)

def compactIfNeeded (minimumActions : ℕ) (sources : Option (List SessionRecord)) :
    Store × Except NotificationError Bool :=
  let retained := s.records.list.filter fun record => record.status ≠ .deleted
  if s.actionCount < minimumActions ∨ s.actionCount ≤ retained.length then (s, .ok false)
  else
    let (s, tombstones) := s.terminalTombstones E sources
    let retained := retained ++ tombstones
    if s.actionCount ≤ retained.length then (s, .ok false)
    else
      ({ s with
          log := encodeUtf8 (J.format.render (retained.map .created))
          actionCount := retained.length
          records := retained.foldl Records.put ∅ }, .ok true)

end Store

/-! ### Listing -/

structure NotificationListParams where
  status : Option NotificationStatus := none
  kind : Option NotificationKind := none
  severity : Option NotificationSeverity := none
  provider : Option String := none
  sessionId : Option String := none
  createdAfter : Option String := none
  createdBefore : Option String := none
  limit : Option ℕ := none
  cursor : Option String := none
  deriving DecidableEq

structure NotificationListResult where
  notifications : List NotificationRecord
  nextCursor : Option String
  deriving DecidableEq

structure Cursor where
  createdAt : String
  id : String
  deriving DecidableEq

def encodeCursor (record : NotificationRecord) : String := record.createdAt ++ "|" ++ record.id

def parseCursor (E : Rfc3339) (cursor : String) : Except NotificationError Cursor :=
  match splitOnce '|' cursor with
  | none => .error (.invalidCursor cursor)
  | some (createdAt, id) => do
    let _ ← parseTimestamp E createdAt
    if id = "" then throw (.invalidCursor cursor)
    return ⟨createdAt, id⟩

/-- `Option::map(..).transpose()?`. -/
def parseOptional {α : Type} (parse : String → Except NotificationError α) :
    Option String → Except NotificationError (Option α)
  | none => .ok none
  | some value => (parse value).map some

def recordAfterCursor (record : NotificationRecord) (cursor : Cursor) : Bool :=
  record.createdAt < cursor.createdAt ∨
    (record.createdAt = cursor.createdAt ∧ cursor.id < record.id)

/-- `record_in_time_range(..).unwrap_or(false)`. -/
def recordInTimeRange (E : Rfc3339) (createdAfter createdBefore : Option ℤ)
    (record : NotificationRecord) : Bool :=
  match E.parse record.createdAt with
  | none => false
  | some createdAt => createdAfter.all (· ≤ createdAt) && createdBefore.all (createdAt < ·)

/-- The filters of a list on the record's own fields. -/
def NotificationListParams.selects (params : NotificationListParams)
    (record : NotificationRecord) : Bool :=
  (match params.status with
    | none => decide (record.status ≠ .deleted)
    | some status => decide (record.status = status)) &&
  params.kind.all (record.kind = ·) && params.severity.all (record.severity = ·) &&
  params.provider.all (record.source.provider = ·) && params.sessionId.all
  (record.sessionId = some ·)

/-- Newest first, then by id. -/
def listedBefore (left right : NotificationRecord) : Prop :=
  right.createdAt < left.createdAt ∨ (left.createdAt = right.createdAt ∧ left.id ≤ right.id)

instance : DecidableRel listedBefore := fun _ _ => inferInstanceAs (Decidable (_ ∨ _))

/-- The page of the records `selected` by the filters. -/
def listPage (selected : List NotificationRecord) (cursor : Option Cursor) (limit : Option ℕ) :
    NotificationListResult :=
  let sorted := selected.insertionSort listedBefore
  let records := match cursor with
    | some cursor => sorted.filter fun record => recordAfterCursor record cursor
    | none => sorted
  { notifications := match limit with
      | some limit => records.take limit
      | none => records
    nextCursor := match limit with
      | some limit =>
        if limit < records.length ∧ 0 < limit then records[limit - 1]?.map encodeCursor else none
      | none => none }

def Store.list (E : Rfc3339) (s : Store) (params : NotificationListParams) :
    Except NotificationError NotificationListResult := do
  s.ensureAvailable
  let createdAfter ← parseOptional (parseTimestamp E) params.createdAfter
  let createdBefore ← parseOptional (parseTimestamp E) params.createdBefore
  let cursor ← parseOptional (parseCursor E) params.cursor
  return listPage ((s.records.list.filter params.selects).filter
    (recordInTimeRange E createdAfter createdBefore)) cursor params.limit

/-! ### The steps of the store -/

inductive Operation
  | createOrDedupe (candidate : NotificationRecord) (attentionWindowSecs minted : ℕ)
  | supersedeTurnsForAttention (attention : NotificationRecord) (now : String)
  | updateTransition (id : String) (status : NotificationStatus) (now : String)
  | deleteTransition (id : String) (now : String)
  | resolveSessionNotifications (dedupeKey now : String) (asOf : Option ℕ)
  | compactIfNeeded (minimumActions : ℕ) (sources : Option (List SessionRecord))
  | list (params : NotificationListParams)

/-- An operation, with what happens to its appends. -/
structure Call where
  operation : Operation
  faults : List (Option ℕ) := []

inductive Result
  | create (result : Except NotificationError CreateOutcome)
  | records (result : Except NotificationError (List NotificationRecord))
  | update (result : Except NotificationError UpdateOutcome)
  | delete (result : Except NotificationError (Option NotificationRecord))
  | compacted (result : Except NotificationError Bool)
  | page (result : Except NotificationError NotificationListResult)

namespace Store

variable (J : Json) (E : Rfc3339)

def perform (s : Store) : Operation → Store × Result
  | .createOrDedupe candidate attentionWindowSecs minted =>
    (s.createOrDedupe J E candidate attentionWindowSecs minted).map id .create
  | .supersedeTurnsForAttention attention now =>
    (s.supersedeTurnsForAttention J attention now).map id .records
  | .updateTransition id' status now => (s.updateTransition J id' status now).map id .update
  | .deleteTransition id' now => (s.deleteTransition J id' now).map id .delete
  | .resolveSessionNotifications dedupeKey now asOf =>
    (s.resolveSessionNotifications J dedupeKey now asOf).map id .records
  | .compactIfNeeded minimumActions sources =>
    (s.compactIfNeeded J E minimumActions sources).map id .compacted
  | .list params => (s, .page (s.list E params))

/-- One call. -/
def exec (s : Store) (call : Call) : Store × Result :=
  { s with faults := call.faults }.perform J E call.operation

/-- The step relation: a call with its answer. -/
def Step (s : Store) (l : Runs.Label Call Result) (t : Store) :
    Prop := s.exec J E l.call = (t, l.answer)

end Store
end Pohunek.Notifications
