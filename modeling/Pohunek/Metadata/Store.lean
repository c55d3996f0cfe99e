/-
# The metadata store

`crates/daemon/src/store/mod.rs` over one file of JSON lines: how the text is
split into records and rejected lines (with `parse_lines` and `classify` of
`store/schema.rs`), what each mutation does to the records, and how a rewrite
is put together from memoised lines and kept as the next snapshot.

`serde_json` and the derived conversions are `Serde`. What the store may assume
of them is `Serde.Lawful`.
-/
import Pohunek.Lib.Keyed
import Pohunek.Metadata.Record
import Pohunek.Notifications.Store

namespace Pohunek.Metadata

open Keyed LineLog
open Notifications (isWhitespace)

abbrev Text := List Char

/-! ### JSON -/

/-- `serde_json::Value`; a number that is not a `u64` is its literal. -/
inductive Value
  | null
  | bool (b : Bool)
  | number (n : ℕ)
  | otherNumber (literal : String)
  | string (text : String)
  | array (items : List Value)
  | object (members : List (String × Value))

namespace Value

def isObject : Value → Bool
  | .object _ => true
  | _ => false

def get (key : String) : Value → Option Value
  | .object members => members.lookup key
  | _ => none

def asU64 : Value → Option ℕ
  | .number n => some n
  | _ => none

def asStr : Value → Option String
  | .string text => some text
  | _ => none

/-- `Map::insert`: the members are ordered by their keys. -/
def insertMember (key : String) (value : Value) : List (String × Value) → List (String × Value)
  | [] => [(key, value)]
  | (k, v) :: rest =>
    if k = key then (key, value) :: rest
    else if key < k then (key, value) :: (k, v) :: rest
    else (k, v) :: insertMember key value rest

end Value

/-- `SCHEMA_VERSION_KEY`. -/
def schemaVersionKey : String := "schema_version"

/-- The conversions of `serde_json` and of the derived implementations, and
the digest of a line. -/
structure Serde where
  fromStr : Text → Except String Value
  toText : Value → Except String Text
  fromValue : Value → Except String Record
  toValue : Record → Except String Value
  /-- `SessionInfo::may_own_runtime` of a value that is a `SessionInfo`. -/
  infoMayOwnRuntime : Value → Option Bool
  contentHash : Text → String

/-! ### Errors -/

inductive StoreSchemaError
  | newerThanBinary (found supported : ℕ)
  | noMigrationPath (found supported : ℕ)
  | migrationRequired (found supported : ℕ)
  | invalidVersion (line : ℕ)
  deriving DecidableEq

inductive StoreError
  | schema (error : StoreSchemaError)
  | invalidData (message : String)
  | bodyTooLarge (size : ℕ)
  | io (message : String)
  deriving DecidableEq

/-! ### Parsing a line -/

/-- One non-empty line of the store. -/
inductive ParsedLine
  | record (text : Text) (value : Value) (version : ℕ)
  | corrupt (text : Text) (error : String)

/-- `UNVERSIONED_LINE_SCHEMA`. -/
def unversionedLineSchema : ℕ := 1

/-- `text.trim().is_empty()`. -/
def blank (text : Text) : Bool := text.all isWhitespace

/-- One turn of the loop of `parse_lines`. -/
def parseLine (S : Serde) (index : ℕ) (text : Text) : Except StoreSchemaError (Option ParsedLine) :=
  if blank text then .ok none
  else
    match S.fromStr text with
    | .error error => .ok (some (.corrupt text error))
    | .ok value =>
      if value.isObject then
        match value.get schemaVersionKey with
        | none => .ok (some (.record text value unversionedLineSchema))
        | some raw =>
          match raw.asU64.filter (· < 2 ^ 32) with
          | some version => .ok (some (.record text value version))
          | none => .error (.invalidVersion (index + 1))
      else .ok (some (.corrupt text "record is not a JSON object"))

def parseFrom (S : Serde) : ℕ → List Text → Except StoreSchemaError (List ParsedLine)
  | _, [] => .ok []
  | index, text :: rest => do
    let line ← parseLine S index text
    let lines ← parseFrom S (index + 1) rest
    return line.toList ++ lines

def parseLines (S : Serde) (content : Text) : Except StoreSchemaError (List ParsedLine) :=
  parseFrom S 0 (lines '\n' '\r' content)

def ParsedLine.version? : ParsedLine → Option ℕ
  | .record _ _ version => some version
  | .corrupt _ _ => none

/-- The schemas `MIGRATIONS` has a step from. -/
def migrations : List ℕ := [1, 2, 3, 4, 5, 6, 7, 8, 9, 10, 11, 12, 13, 14, 15]

/-- `path_exists`. -/
def pathExists (migrations : List ℕ) (target version : ℕ) : Bool :=
  (List.range' version (target - version)).all fun step => step ∈ migrations

inductive SchemaState
  | current
  | migratable (oldest : ℕ)
  deriving DecidableEq

def classify (lines : List ParsedLine) : Except StoreSchemaError SchemaState :=
  let versions := lines.filterMap ParsedLine.version?
  let oldest := versions.foldl min (2 ^ 32 - 1)
  let newest := versions.foldl max 0
  if storeSchemaVersion < newest then .error (.newerThanBinary newest storeSchemaVersion)
  else if storeSchemaVersion ≤ oldest then .ok .current
  else if pathExists migrations storeSchemaVersion oldest then .ok (.migratable oldest)
  else .error (.noMigrationPath oldest storeSchemaVersion)

/-- `checked_lines`. -/
def checkedLines (S : Serde) (content : Text) : Except StoreSchemaError (List ParsedLine) := do
  let lines ← parseLines S content
  match ← classify lines with
  | .current => return lines
  | .migratable oldest => throw (.migrationRequired oldest storeSchemaVersion)

/-! ### Records and rejected lines -/

structure RejectedLine where
  kind : Option String
  mayOwnRuntime : Bool
  reason : String
  text : Text
  decodable : Bool
  deriving DecidableEq

/-- `may_hold_session`. -/
def mayHoldSession (kind : Option String) : Bool :=
  kind.all fun kind => kind ∉ ["resume", "worktree", "project"]

/-- `rejected_hint`: the kind a rejected line names, and whether it may own a
runtime. -/
def rejectedHint (S : Serde) (value : Value) : Option String × Bool :=
  let kind := (value.get "kind").bind Value.asStr
  let ended := ((value.get "runtime").bind (·.get "state")).bind Value.asStr ∈
    [some "lost", some "terminal"]
  (kind, mayHoldSession kind && !ended &&
    ((value.get "info").bind S.infoMayOwnRuntime).all id)

/-- What `partition_lines` makes of a line: a record as the loader completes
it, or a rejected line. -/
def sortLine (S : Serde) : ParsedLine → Except RejectedLine Record
  | .corrupt text error =>
    .error { kind := none, mayOwnRuntime := false, reason := error, text := text, decodable := false }
  | .record text value _ =>
    let (kind, mayOwnRuntime) := rejectedHint S value
    match S.fromValue value with
    | .ok record =>
      if record.persistable then .ok record.mirrored
      else .error
        { kind, mayOwnRuntime, reason := "the agent kind is not a runtime id", text, decodable := true }
    | .error error => .error { kind, mayOwnRuntime, reason := error, text, decodable := false }

/-- The records of every kind, in file order within a kind. -/
@[ext]
structure StoreRecords where
  resume : List ResumeBinding
  worktrees : List WorktreeBinding
  projects : List ProjectRecord
  sessions : List SessionRecord
  deriving DecidableEq

namespace Record

def resume? : Record → Option ResumeBinding
  | .resume binding => some binding
  | _ => none

def worktree? : Record → Option WorktreeBinding
  | .worktree binding => some binding
  | _ => none

def project? : Record → Option ProjectRecord
  | .project record => some record
  | _ => none

def session? : Record → Option SessionRecord
  | .session record => some record
  | _ => none

end Record

/-- The records of a file, each in the list of its kind. -/
def StoreRecords.ofList (records : List Record) : StoreRecords where
  resume := records.filterMap Record.resume?
  worktrees := records.filterMap Record.worktree?
  projects := records.filterMap Record.project?
  sessions := records.filterMap Record.session?

def rejectedOf : Except RejectedLine Record → Option RejectedLine
  | .ok _ => none
  | .error line => some line

def partitionLines (S : Serde) (lines : List ParsedLine) : StoreRecords × List RejectedLine :=
  let sorted := lines.map (sortLine S)
  (.ofList (sorted.filterMap Except.toOption), sorted.filterMap rejectedOf)

/-- What a file of the current schema holds. -/
def decode (S : Serde) (content : Text) : Except StoreError (StoreRecords × List RejectedLine) := do
  let lines ← (checkedLines S content).mapError .schema
  return partitionLines S lines

/-! ### Writing a line -/

/-- `stamp_current_schema`. -/
def stampCurrentSchema : Value → Except String Value
  | .object members =>
    .ok (.object (Value.insertMember schemaVersionKey (.number storeSchemaVersion) members))
  | _ => .error "metadata record did not serialize to a JSON object"

/-- `serialize_line`. -/
def serializeLine (S : Serde) (record : Record) : Except String Text := do
  let value ← S.toValue record
  let value ← stampCurrentSchema value
  S.toText value

/-- JSON round trips: the line of a record is one line that reads back as the
value it was written from, and that value as the record with the schema the
line was stamped with. A carriage return behind a text is white space. -/
structure Serde.Lawful (S : Serde) : Prop where
  oneLine : ∀ {record line}, serializeLine S record = .ok line →
    '\n' ∉ line ∧ blank line = false ∧ line.getLast? ≠ some '\r'
  readBack : ∀ {record value stamped line}, S.toValue record = .ok value →
    stampCurrentSchema value = .ok stamped → S.toText stamped = .ok line →
    S.fromStr line = .ok stamped
  roundTrip : ∀ {record value stamped}, record.persistable → S.toValue record = .ok value →
    stampCurrentSchema value = .ok stamped → S.fromValue stamped = .ok record.stamped
  version : ∀ {value record}, S.fromValue value = .ok (.session record) →
    value.get schemaVersionKey = some (.number record.schemaVersion)
  returnIgnored : ∀ text, (S.fromStr (text ++ ['\r'])).toOption = (S.fromStr text).toOption

/-! ### Entries with memoised lines -/

/-- One record and the line this build writes for it. -/
structure Entry (α : Type) where
  record : α
  line : Option Text
  pending : Bool
  deriving DecidableEq

namespace Entry

variable {α : Type}

def new (record : α) : Entry α := ⟨record, none, false⟩

def replace (_ : Entry α) (record : α) : Entry α := new record

/-- `edit`; the cached line no longer describes the record. -/
def edit (f : α → α) (entry : Entry α) : Entry α := ⟨f entry.record, none, false⟩

end Entry

@[ext]
structure Records where
  resume : List (Entry ResumeBinding)
  worktrees : List (Entry WorktreeBinding)
  projects : List (Entry ProjectRecord)
  sessions : List (Entry SessionRecord)
  deriving DecidableEq

def Records.fromStoreRecords (stored : StoreRecords) : Records where
  resume := stored.resume.map .new
  worktrees := stored.worktrees.map .new
  projects := stored.projects.map .new
  sessions := stored.sessions.map .new

/-- The records without their lines. -/
def Records.owned (records : Records) : StoreRecords where
  resume := records.resume.map (·.record)
  worktrees := records.worktrees.map (·.record)
  projects := records.projects.map (·.record)
  sessions := records.sessions.map (·.record)

/-- The decoded content of the file. -/
structure Snapshot where
  content : Text
  records : Records
  rejected : List RejectedLine
  deriving DecidableEq

def Snapshot.empty : Snapshot := ⟨[], ⟨[], [], [], []⟩, []⟩

/-! ### Mutations -/

inductive Mutation
  | recordSession (record : SessionRecord)
  | recordSessionIfCurrent (expected record : SessionRecord)
  | clearInitialInput (sessionId : String)
  | replaceSessionMetadata (sessionId : String) (metadata : List (String × String))
    (updatedAt : String)
  | removeSession (sessionId : String)
  | recordResume (binding : ResumeBinding)
  | removeResume (sessionId : String)
  | recordWorktree (binding : WorktreeBinding)
  | removeWorktreeSession (sessionId : String)
  | removeWorktreeBinding (binding : WorktreeBinding)
  | mutateProject (gitCommonDir : String) (mutate : Option ProjectRecord → Option ProjectRecord)
  | recordProject (record : ProjectRecord)
  | removeProject (gitCommonDir : String)

/-- What a mutation that did not fail returns. -/
inductive Answer
  | applied
  | staleRuntime
  | staleSnapshot
  | unit
  | flag (value : Bool)
  | count (value : ℕ)
  | project (value : Option ProjectRecord)
  deriving DecidableEq

/-- What a mutation decides: to leave the file, or to rewrite it. -/
inductive Plan
  | keep (answer : Answer)
  | rewrite (records : Records) (answer : Answer)
  deriving DecidableEq

section Mutations

variable {α : Type}

/-- Replaces the first entry found, or adds one. -/
def upsert (p : α → Bool) (merge : Option α → α) (entries : List (Entry α)) : List (Entry α) :=
  match entries.find? fun entry => p entry.record with
  | some _ => modifyFirst (fun entry => p entry.record) (fun entry => entry.replace
    (merge (some entry.record))) entries
  | none => entries ++ [.new (merge none)]

def retain (p : α → Bool) (entries : List (Entry α)) :
    List (Entry α) := entries.filter fun entry => p entry.record

/-- `drop_resume_of_terminal_session`. -/
def dropResumeOfTerminalSession (record : SessionRecord) (resume : List (Entry ResumeBinding)) :
    List (Entry ResumeBinding) :=
  if record.info.state.isTerminal then
    retain (fun binding => binding.sessionId ≠ record.sessionId) resume else resume

/-- The record of a session. -/
def Records.session (records : Records) (sessionId : String) : Option (Entry SessionRecord) :=
  records.sessions.find? fun entry => entry.record.sessionId = sessionId

/-- Both session writes, once they are let through. -/
def Records.storeSession (records : Records) (record : SessionRecord) : Records :=
  { records with
    sessions := upsert (fun existing => existing.sessionId = record.sessionId)
      (fun existing => existing.elim record fun existing => mergeSession existing record)
      records.sessions
    resume := dropResumeOfTerminalSession record records.resume }

def recordSession (record : SessionRecord) (records : Records) : Plan :=
  match records.session record.sessionId with
  | some existing =>
    if staleRuntimeSnapshot existing.record record then .keep .staleRuntime
    else .rewrite (records.storeSession record) .applied
  | none => .rewrite (records.storeSession record) .applied

def recordSessionIfCurrent (expected record : SessionRecord) (records : Records) : Plan :=
  match records.session record.sessionId with
  | none => .keep .staleSnapshot
  | some existing =>
    if staleRuntimeSnapshot existing.record record then .keep .staleRuntime
    else if existing.record ≠ expected then .keep .staleSnapshot
    else .rewrite (records.storeSession record) .applied

/-- The record of a session that waits for its initial input. -/
def SessionRecord.marked (sessionId : String) (record : SessionRecord) : Bool :=
  record.sessionId = sessionId && record.transaction.any (·.isInitialInput)

variable (sessionId : String) (records : Records)

def clearInitialInput : Plan :=
  match records.sessions.find? fun entry => entry.record.marked sessionId with
  | none => .keep (.flag false)
  | some _ =>
    let sessions := modifyFirst (fun entry => entry.record.marked sessionId)
      (.edit fun record => { record with transaction := none }) records.sessions
    .rewrite { records with sessions } (.flag true)

/-- The owner's metadata in a record and in its recovery binding. -/
def withMetadata (metadata : List (String × String)) (updatedAt : String) (record : SessionRecord) :
    SessionRecord :=
  { record with
    info := { record.info with metadata, updatedAt }
    recovery := record.recovery.map fun recovery => { recovery with metadata } }

def replaceSessionMetadata (sessionId : String) (metadata : List (String × String))
    (updatedAt : String) (records : Records) : Plan :=
  match records.session sessionId with
  | none => .keep (.flag false)
  | some _ =>
    let sessions := modifyFirst (fun entry => entry.record.sessionId = sessionId)
      (.edit (withMetadata metadata updatedAt)) records.sessions
    .rewrite { records with sessions } (.flag true)

/-- A removal rewrites the file when it removed something. -/
def removal (kept : ℕ) (before : ℕ) (records : Records) (removed unchanged : Answer) : Plan :=
  if kept = before then .keep unchanged else .rewrite records removed

def removeSession : Plan :=
  let sessions := retain (fun record => record.sessionId ≠ sessionId) records.sessions
  removal sessions.length records.sessions.length { records with sessions } (.flag true)
    (.flag false)

/-- The reference a session's record has for its binding. -/
def Records.authoritative (records : Records) (sessionId : String) : Option ResumeBinding :=
  ((records.session sessionId).bind (·.record.recovery)).filter fun recovery =>
    recovery.nativeSessionId.isSome || recovery.nativeSessionPath.isSome

def recordResume (binding : ResumeBinding) (records : Records) : Plan :=
  let replacement := (records.authoritative binding.sessionId).elim binding binding.withReference
  let resume := upsert (fun existing => existing.sessionId = binding.sessionId)
    (fun _ => replacement) records.resume
  .rewrite { records with resume } .unit

def removeResume : Plan :=
  let resume := retain (fun binding => binding.sessionId ≠ sessionId) records.resume
  removal resume.length records.resume.length { records with resume } .unit .unit

/-- The key of a worktree binding. -/
def WorktreeBinding.sameKey (self other : WorktreeBinding) : Bool :=
  self.sessionId = other.sessionId && self.repository = other.repository && self.branchSlug =
    other.branchSlug

def recordWorktree (binding : WorktreeBinding) (records : Records) : Plan :=
  .rewrite { records with
        worktrees := upsert (·.sameKey binding) (fun _ => binding) records.worktrees } .unit

def removeWorktreeSession : Plan :=
  let worktrees := retain (fun binding => binding.sessionId ≠ sessionId) records.worktrees
  removal worktrees.length records.worktrees.length { records with worktrees }
    (.count (records.worktrees.length - worktrees.length)) (.count 0)

def removeWorktreeBinding (binding : WorktreeBinding) (records : Records) : Plan :=
  let worktrees := retain (fun existing => !existing.sameKey binding) records.worktrees
  removal worktrees.length records.worktrees.length { records with worktrees } (.flag true)
    (.flag false)

def mutateProject (gitCommonDir : String) (mutate : Option ProjectRecord → Option ProjectRecord)
    (records : Records) : Plan :=
  let current := records.projects.find? fun entry => entry.record.gitCommonDir = gitCommonDir
  match mutate (current.map (·.record)) with
  | none => .keep (.project none)
  | some updated =>
    let projects := upsert (fun existing => existing.gitCommonDir = gitCommonDir)
      (fun _ => updated) records.projects
    .rewrite { records with projects } (.project (some updated))

def recordProject (record : ProjectRecord) (records : Records) : Plan :=
  let projects := upsert (fun existing => existing.gitCommonDir = record.gitCommonDir)
    (fun _ => record) records.projects
  .rewrite { records with projects } .unit

def removeProject (gitCommonDir : String) (records : Records) : Plan :=
  let projects := retain (fun record => record.gitCommonDir ≠ gitCommonDir) records.projects
  removal projects.length records.projects.length { records with projects } (.flag true)
    (.flag false)

def Mutation.plan : Mutation → Records → Plan
  | .recordSession record => Metadata.recordSession record
  | .recordSessionIfCurrent expected record => Metadata.recordSessionIfCurrent expected record
  | .clearInitialInput sessionId => Metadata.clearInitialInput sessionId
  | .replaceSessionMetadata sessionId metadata updatedAt =>
    Metadata.replaceSessionMetadata sessionId metadata updatedAt
  | .removeSession sessionId => Metadata.removeSession sessionId
  | .recordResume binding => Metadata.recordResume binding
  | .removeResume sessionId => Metadata.removeResume sessionId
  | .recordWorktree binding => Metadata.recordWorktree binding
  | .removeWorktreeSession sessionId => Metadata.removeWorktreeSession sessionId
  | .removeWorktreeBinding binding => Metadata.removeWorktreeBinding binding
  | .mutateProject gitCommonDir mutate => Metadata.mutateProject gitCommonDir mutate
  | .recordProject record => Metadata.recordProject record
  | .removeProject gitCommonDir => Metadata.removeProject gitCommonDir

end Mutations

/-! ### Rewriting the file -/

/-- How the records of one kind are written and picked out of a decode. -/
structure Kind (α : Type) where
  wrap : α → Record
  pick : StoreRecords → Option α

/-- The one item of a list. -/
def only {α : Type} : List α → Option α
  | [x] => some x
  | _ => none

namespace Kind

def resume : Kind ResumeBinding where
  wrap := .resume
  pick stored :=
    if stored.worktrees.isEmpty && stored.projects.isEmpty && stored.sessions.isEmpty then
      only stored.resume else none

def worktree : Kind WorktreeBinding where
  wrap := .worktree
  pick stored :=
    if stored.resume.isEmpty && stored.projects.isEmpty && stored.sessions.isEmpty then
      only stored.worktrees else none

def project : Kind ProjectRecord where
  wrap := .project
  pick stored :=
    if stored.resume.isEmpty && stored.worktrees.isEmpty && stored.sessions.isEmpty then
      only stored.projects else none

def session : Kind SessionRecord where
  wrap := .session
  pick stored :=
    if stored.resume.isEmpty && stored.worktrees.isEmpty && stored.projects.isEmpty then
      only stored.sessions else none

variable {α : Type} (S : Serde) (kind : Kind α)

/-- The entry as it is written: with its line, which is serialised when there
is none. -/
def emitEntry (entry : Entry α) : Except String (Text × Entry α) :=
  match entry.line with
  | some line => .ok (line, entry)
  | none => do
    let line ← serializeLine S (kind.wrap entry.record)
    return (line, { entry with line := some line, pending := true })

/-- `emit_kind`. -/
def emit : List (Entry α) → Except String (Text × List (Entry α))
  | [] => .ok ([], [])
  | entry :: rest => do
    let (line, written) ← emitEntry S kind entry
    let (body, entries) ← emit rest
    return (line ++ '\n' :: body, written :: entries)

/-- One turn of the loop of `settle`. -/
def settleEntry (entry : Entry α) : Option (Entry α) :=
  if entry.pending then do
    let line ← entry.line
    let parsed ← (parseLines S line).toOption
    let (stored, rejected) := partitionLines S parsed
    guard rejected.isEmpty
    let decoded ← kind.pick stored
    let serialised ← (serializeLine S (kind.wrap decoded)).toOption
    return { record := decoded, line := some (if serialised ≠ line then serialised
      else line), pending := false }
  else some entry

def settle (entries : List (Entry α)) : Option (List (Entry α)) := entries.mapM (settleEntry S kind)

end Kind

/-- Whether `emit` accepts the records. -/
def Records.persistable (records : Records) : Bool :=
  records.resume.all (fun entry => kindIsPersistable entry.record.agentBase) &&
    records.sessions.all fun entry => recordAgentsArePersistable entry.record

/-- `Store::emit` up to `commit_body`: the body and the entries with their
lines. -/
def emit (S : Serde) (records : Records) (rejected : List Text) :
    Except StoreError (Text × Records) :=
  if records.persistable then
    Except.mapError StoreError.invalidData do
      let (resumeBody, resume) ← Kind.resume.emit S records.resume
      let (worktreeBody, worktrees) ← Kind.worktree.emit S records.worktrees
      let (projectBody, projects) ← Kind.project.emit S records.projects
      let (sessionBody, sessions) ← Kind.session.emit S records.sessions
      return (resumeBody ++ worktreeBody ++ projectBody ++ sessionBody ++ unlines '\n' rejected,
        ⟨resume, worktrees, projects, sessions⟩)
  else .error (.invalidData "metadata records cannot persist agent kinds that are not runtime ids")

/-- `MAX_METADATA_STORE_BYTES`. -/
def maxMetadataStoreBytes : ℕ := 16 * 1024 * 1024

/-- `str::len`. -/
def byteLength (text : Text) : ℕ := (text.map Char.utf8Size).sum

/-- `check_body_size`. -/
def checkBodySize (body : Text) : Except StoreError Unit :=
  if maxMetadataStoreBytes < byteLength body then .error (.bodyTooLarge (byteLength body))
    else .ok ()

/-- `Store::remember`: the snapshot of a body that was renamed over the
store, when every line settles. -/
def remember (S : Serde) (body : Text) (records : Records) (rejected : List RejectedLine) :
    Option Snapshot := do
  let resume ← Kind.resume.settle S records.resume
  let worktrees ← Kind.worktree.settle S records.worktrees
  let projects ← Kind.project.settle S records.projects
  let sessions ← Kind.session.settle S records.sessions
  return ⟨body, ⟨resume, worktrees, projects, sessions⟩, rejected⟩

/-! ### Setting rejected lines aside -/

/-- `kind_may_pin`. -/
def kindMayPin (kind : Option String) : Bool := kind ∉ [some "worktree", some "project"]

def RejectedLine.pinUnreadable (line : RejectedLine) :
    Bool := kindMayPin line.kind && !line.decodable

/-- `may_be_live`. -/
def mayBeLive (S : Serde) (line : RejectedLine) : Bool :=
  line.mayOwnRuntime || (line.kind = some "resume" && line.pinUnreadable) ||
    !(S.fromStr line.text).toOption.any Value.isObject

inductive SetAsideError
  | notFound
  | live (resumePinUnreadable : Bool)
  | failed (error : StoreError)
  deriving DecidableEq

/-- What `set_aside_rejected` leaves in the store for its content, after the
other rejected lines went to the quarantine file. Every rejected line is a
line of the content, so numbering them does not fail. -/
def setAside (S : Serde) (contentHash : String) (acceptPinLoss : Bool) (content : Option Text) :
    Except SetAsideError (Records × List RejectedLine) :=
  match content with
  | none => .error .notFound
  | some content =>
    match decode S content with
    | .error error => .error (.failed error)
    | .ok (stored, rejected) =>
      let aside := rejected.filter fun line => S.contentHash line.text = contentHash
      let kept := rejected.filter fun line => S.contentHash line.text ≠ contentHash
      if aside.isEmpty then .error .notFound
      else
        match aside.find? (mayBeLive S) with
        | some line =>
          if acceptPinLoss then .ok (.fromStoreRecords stored, kept)
          else .error (.live (!line.mayOwnRuntime && line.kind = some "resume"))
        | none => .ok (.fromStoreRecords stored, kept)

end Pohunek.Metadata
