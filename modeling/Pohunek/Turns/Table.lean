/-
# The turns of a session

`TurnTable` and `TurnProgress` of `crates/daemon/src/session/turn_events.rs`.
Each function that reads the monotonic clock takes what it read as `now`; the
wall clock is the argument `wallNanos`, as in the source. A `&mut` function
returns the record or table it leaves.

A turn opens when its session starts to work, pauses in `blocked`, settles
when the session goes idle, and is over as `closed` (it may be reported) or
`abandoned` (it may not).
-/
import Pohunek.Lib.OrderedMap

namespace Pohunek.Turns

inductive AgentActivity
  | working | blocked | idle | unknown
  deriving DecidableEq

/-- The number inside a `TurnId`. -/
abbrev TurnId := ℕ

/-- Who ran a turn: the registry entry and the agent incarnation within it. -/
structure TurnOwner where
  entry : ℕ
  agent : ℕ
  deriving DecidableEq

abbrev Metadata := List (String × String)

inductive TurnState
  | opened
  | paused
  | settling (deadline : ℕ)
  | closed
  | abandoned
  deriving DecidableEq

structure TurnRecord where
  owner : TurnOwner
  startedNanos : Option ℕ
  started : Option ℕ
  ended : Option ℕ
  endedMetadata : Option Metadata
  state : TurnState
  /-- The turn took the session's input evidence when it opened. -/
  holdsInput : Bool
  inboxReportedAt : Option ℕ
  inboxReported : Bool
  signalReported : Bool
  deriving DecidableEq

/-- What an abandoned turn hands back to its session. -/
structure Handback where
  startedNanos : Option ℕ
  started : Option ℕ
  deriving DecidableEq

/-- `RECENT_TURNS`. -/
def recentTurns : ℕ := 8

structure TurnTable where
  nextId : ℕ
  newest : Option TurnId
  records : OrderedMap TurnId TurnRecord
  token : Bool
  returnedStart : Option Handback

/-- `TurnTable::default()`. -/
def TurnTable.new : TurnTable := ⟨0, none, .empty, false, none⟩

/-! ### One record -/

namespace TurnRecord

def abandon (record : TurnRecord) : TurnRecord × Option Handback :=
  ({ record with state := .abandoned, holdsInput := false },
    if record.holdsInput then some ⟨record.startedNanos, record.started⟩ else none)

def depart (record : TurnRecord) : TurnRecord × Option Handback :=
  match record.state with
  | .settling _ => ({ record with state := .closed }, none)
  | .opened | .paused => record.abandon
  | .closed | .abandoned => (record, none)

def reported (record : TurnRecord) : Bool := record.inboxReported || record.signalReported

/-- `matches!(record.state, TurnState::Open | TurnState::Paused)`. -/
def live (record : TurnRecord) : Bool := record.state = .opened || record.state = .paused

end TurnRecord

/-! ### The table -/

namespace TurnTable

variable (table : TurnTable)

def openTurn (owner : TurnOwner) (startedNanos : Option ℕ) (now : ℕ) : TurnTable × TurnId :=
  let id := table.nextId + 1
  let record : TurnRecord :=
    { owner := owner
      startedNanos := startedNanos
      started := startedNanos.map fun _ => now
      ended := none
      endedMetadata := none
      state := .opened
      holdsInput := false
      inboxReportedAt := none
      inboxReported := false
      signalReported := false }
  ({ table with
      nextId := id
      newest := some id
      records := (table.records.insert id record).keepLast recentTurns }, id)

/-- `newest_mut`, read. -/
def newestRecord : Option (TurnId × TurnRecord) :=
  table.newest.bind fun id => (table.records.get id).map fun record => (id, record)

def giveBack : Option Handback → TurnTable
  | some handback => { table with token := true, returnedStart := some handback }
  | none => table

/-- A record is changed, and what it hands back is given back. -/
def change (id : TurnId) (f : TurnRecord → TurnRecord × Option Handback) : TurnTable :=
  giveBack { table with records := table.records.modify id fun record => (f record).1 }
    ((table.records.get id).bind fun record => (f record).2)

/-- `change`, for the record of `newest_mut`. -/
def changeNewest (f : TurnRecord → TurnRecord × Option Handback) : TurnTable :=
  match table.newest with
  | some id => table.change id f
  | none => table

def departChanged (owner : TurnOwner) : TurnTable :=
  table.changeNewest fun record => if record.owner ≠ owner then record.depart else (record, none)

def discardInput : TurnTable :=
  { table with
    records := table.records.mapWithKey fun _ record => { record with holdsInput := false }
    token := false
    returnedStart := none }

def abandonAll (now : ℕ) : TurnTable :=
  discardInput { table with
    records := table.records.mapWithKey fun _ record =>
      { record with
        state := match record.state with
          | .closed => .closed
          | .settling deadline => if deadline ≤ now then .closed else .abandoned
          | _ => .abandoned } }

/-- The turn just opened takes the input evidence, and the start of the turn
that gave it back. -/
def takeToken (id : TurnId) : TurnTable :=
  if table.token then
    { table with
      token := false
      returnedStart := none
      records := table.records.modify id fun record =>
        match table.returnedStart.filter (·.started.isSome) with
        | some returned =>
          { record with
            holdsInput := true, startedNanos := returned.startedNanos, started := returned.started }
        | none => { record with holdsInput := true } }
  else table

end TurnTable

/-- Whether a `working` after `previous` continues the newest turn. -/
def continuesTurn (table : TurnTable) (previous : Option AgentActivity) (now : ℕ) : Bool :=
  table.newestRecord.any fun newest =>
    match newest.2.state with
    | .paused => previous = some .blocked
    | .settling deadline => now < deadline
    | _ => false

/-- What entering `working` does to the newest turn, and whether it resumes it. -/
def TurnRecord.enterWorking (previous : Option AgentActivity) (now : ℕ) (record : TurnRecord) :
    (TurnRecord × Option Handback) × Bool :=
  match record.state with
  | .paused =>
    if previous = some .blocked then (({ record with state := .opened }, none), true)
    else (record.abandon, false)
  | .settling deadline =>
    if now < deadline then
      (({ record with state := .opened, ended := none, endedMetadata := none }, none), true)
    else (({ record with state := .closed }, none), false)
  | .opened => (record.abandon, false)
  | .closed | .abandoned => ((record, none), false)

/-- Anything but a resumed turn opens a new one. -/
def enterWorking (table : TurnTable) (owner : TurnOwner) (previous : Option AgentActivity)
    (startedNanos : Option ℕ) (now : ℕ) : TurnTable × Option TurnId :=
  let entered := table.changeNewest fun record => (record.enterWorking previous now).1
  if table.newestRecord.any fun newest => (newest.2.enterWorking previous now).2 then
    (entered, none)
  else
    let (table, id) := entered.openTurn owner startedNanos now
    (table, some id)

/-! ### The progress of a session -/

structure TurnProgress where
  lastOutputNanos : ℕ
  /-- The last transition into `working`. -/
  turnStartedNanos : ℕ
  /-- The largest start handed to a record. -/
  recordStartFloor : ℕ
  table : TurnTable

/-- What one activity change did to the turns of a session. -/
structure TurnChange where
  started : Option TurnId
  ended : Option TurnId
  deriving DecidableEq

structure TurnSnapshot where
  startedNanos : Option ℕ
  length : Option ℕ
  metadata : Metadata
  inboxReported : Bool
  signalReported : Bool
  deriving DecidableEq

def TurnRecord.snapshot (record : TurnRecord) : TurnSnapshot where
  startedNanos := record.startedNanos
  length := record.started.bind fun started => record.ended.map fun ended => ended - started
  metadata := record.endedMetadata.getD []
  inboxReported := record.inboxReported
  signalReported := record.signalReported

inductive TurnVerdict
  | hold (wait : Option ℕ)
  | surface (snapshot : TurnSnapshot)
  | drop
  deriving DecidableEq

def nonZero (value : ℕ) : Option ℕ := if value ≠ 0 then some value else none

/-- The arms of `note_activity` for a change that does not enter `working`, and
whether the turn ended. -/
def TurnRecord.leaveWorking (previous : Option AgentActivity) (next : AgentActivity) (metadata : Metadata)
    (now window : ℕ) (record : TurnRecord) : (TurnRecord × Option Handback) × Bool :=
  match previous, next, record.state with
  | some .working, .working, _ => ((record, none), false)
  | some .working, .blocked, .opened => (({ record with state := .paused }, none), false)
  | some .working, .idle, .opened =>
    (({ record with
        ended := some now, endedMetadata := some metadata, state := .settling (now + window) }, none), true)
  | some .working, _, .opened => (record.abandon, false)
  | some .blocked, .idle, .paused => (record.abandon, false)
  | _, _, _ => ((record, none), false)

/-- A settling turn whose deadline passed is closed. -/
def TurnRecord.expire (now : ℕ) (record : TurnRecord) : TurnRecord :=
  match record.state with
  | .settling deadline => if now < deadline then record else { record with state := .closed }
  | _ => record

namespace TurnProgress

/-- `TurnProgress::default()`. -/
def new : TurnProgress := ⟨0, 0, 0, .new⟩

variable (progress : TurnProgress)

/-- `floor + 1` is that of `u64`. -/
def startNanos (wallNanos : ℕ) : ℕ :=
  max wallNanos ((max progress.turnStartedNanos progress.recordStartFloor + 1) % 2 ^ 64)

def noteActivity (now : ℕ) (owner : TurnOwner) (previous : Option AgentActivity)
    (next : AgentActivity) (metadata : Metadata) (wallNanos window : ℕ) (detectorObserved : Bool) :
    TurnProgress × TurnChange :=
  let table := progress.table.departChanged owner
  let nanos := progress.startNanos wallNanos
  let progress : TurnProgress :=
    if next = .working ∧ previous ≠ some .working then { progress with turnStartedNanos := nanos }
      else progress
  let running := table.newestRecord.any (·.2.state = .opened)
  if next = .working ∧ (previous ≠ some .working ∨ ¬running) then
    -- output nobody asked for opens no turn
    if detectorObserved && !table.token && !continuesTurn table previous now then
      ({ progress with table := table }, ⟨none, none⟩)
    else
      match enterWorking table owner previous (nonZero nanos) now with
      | (table, some id) =>
        ({ progress with recordStartFloor := nanos, table := table.takeToken id }, ⟨some id, none⟩)
      | (table, none) => ({ progress with table := table }, ⟨none, none⟩)
  else
    let changed := table.changeNewest fun record =>
      (record.leaveWorking previous next metadata now window).1
    let ended := table.newestRecord.filter fun newest =>
      (newest.2.leaveWorking previous next metadata now window).2
    ({ progress with table := changed }, ⟨none, ended.map (·.1)⟩)

def adopt (now : ℕ) (owner : TurnOwner) : TurnProgress × Option TurnId :=
  let table := progress.table.departChanged owner
  if table.newestRecord.any (·.2.live) then ({ progress with table := table }, none)
  else
    let (table, id) := table.openTurn owner none now
    ({ progress with table := table }, some id)

def depart (owner : TurnOwner) : TurnProgress :=
  { progress with table := progress.table.departChanged owner }

def noteInput : TurnProgress :=
  { progress with table := { progress.table with token := true, returnedStart := none } }

def forgetInput : TurnProgress :=
  { progress with table := progress.table.discardInput }

def abandonAll (now : ℕ) : TurnProgress :=
  { progress with table := progress.table.abandonAll now }

def abandonRunning (owner : TurnOwner) : TurnProgress :=
  { progress with
    table := progress.table.changeNewest fun record =>
      if record.owner = owner ∧ record.live then record.abandon else (record, none) }

def attachReport (now : ℕ) (owner : TurnOwner) : TurnProgress × Option TurnId :=
  let table := progress.table.departChanged owner
  ({ progress with table := table.changeNewest fun record => (record.expire now, none) },
    table.newestRecord.bind fun (id, record) =>
      let unreported := if record.owner = owner ∧ ¬record.reported then some id else none
      match record.state with
      | .opened | .paused => some id
      | .settling deadline => if now < deadline then some id else unreported
      | .closed => unreported
      | .abandoned => none)

/-- `ended` is what `abandon_all` reads from the clock. -/
def settle (now ended : ℕ) (id : TurnId) (owner : Option TurnOwner) :
    TurnProgress × TurnVerdict :=
  let table := if owner = none then progress.table.abandonAll ended else progress.table
  -- only the settled turn departs: the turn a newer owner opened stays
  let table := table.change id fun record =>
    if owner.any (record.owner ≠ ·) then record.depart else (record, none)
  ({ progress with table := table.change id fun record => (record.expire now, none) },
    match table.records.get id with
    | none => .drop
    | some record =>
      match record.state with
      | .abandoned => .drop
      | .opened | .paused => .hold none
      | .settling deadline =>
        if now < deadline then .hold (some (deadline - now)) else .surface record.snapshot
      | .closed => .surface record.snapshot)

def markReported (now : ℕ) (id : TurnId) (inbox signal : Bool) : TurnProgress :=
  { progress with
    table := progress.table.change id fun record =>
      ({ record with
          inboxReportedAt := if inbox ∧ ¬record.inboxReported then some now
            else record.inboxReportedAt
          inboxReported := record.inboxReported || inbox
          signalReported := record.signalReported || signal }, none) }

end TurnProgress

end Pohunek.Turns
