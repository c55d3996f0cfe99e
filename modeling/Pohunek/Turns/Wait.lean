/-
# `session.wait_turn`

The long wait of `crates/daemon/src/session/turn_wait.rs`, made again and again
by one client with the same targets and kinds, each time after the cursor of
its last result. `Phase` says where the call is: it has one constructor for
each place where the source takes a lock or waits, so between two steps of
the client the daemon may record events, observe states and forget sessions. A session
is removed by `forget` and `display`.

A parked wait may look again at any time; the version watch only decides when
it does. `acquire` is granted or not, as the pool of waiters has it. `issued`
and `callNanos` are readings of the wall clock.

`World.log` is every event ever journaled and `World.answers` every result the
client got, with the journal it was decided on.
-/
import Pohunek.Lib.Run
import Pohunek.Turns.Journal

namespace Pohunek.Turns

/-- The part of `SessionInfo` a wait reads. -/
structure SessionInfo where
  state : SessionState
  activity : Option AgentActivity
  deriving DecidableEq

inductive SessionWaitTurnReason
  | event | targetsEnded | cursorReset | timeout
  deriving DecidableEq

structure SessionTurnEvent where
  sessionId : SessionId
  kind : SessionTurnEventKind
  recordedAt : String
  notificationId : Option NotificationId
  deriving DecidableEq

structure SessionTurnProgress where
  sessionId : SessionId
  state : SessionState
  activity : Option AgentActivity
  lastOutputAt : Option String
  outputAdvanced : Bool
  turnStartedAt : Option String
  deriving DecidableEq

structure SessionWaitTurnResult where
  reason : SessionWaitTurnReason
  event : Option SessionTurnEvent
  cursor : Text
  progress : List SessionTurnProgress
  deriving DecidableEq

def TurnEntry.event (entry : TurnEntry) : SessionTurnEvent :=
  ⟨entry.sessionId, entry.kind, entry.recordedAt, entry.notificationId⟩

/-- The daemon and the parameters of the client's calls. `rfc3339` formats
Unix nanoseconds. -/
structure Setup where
  epoch : Text
  capacity : ℕ
  rfc3339 : ℕ → Option String
  targets : List SessionId
  kinds : List SessionTurnEventKind

def Setup.selects (setup : Setup) (entry : TurnEntry) : Bool :=
  setup.targets.contains entry.sessionId && setup.kinds.contains entry.kind

/-! ### One check -/

inductive Outcome
  | event (entry : TurnEntry)
  | ended (latest : ℕ)
  | pending (latest : ℕ)
  | reset (latest : ℕ)

variable (setup : Setup) (journal : Journal)

/-- `turn_outcome`, after the states were read. -/
def turnOutcome (afterSeq : ℕ) (allTerminal : Bool) : Outcome :=
  let scan := journal.scan afterSeq setup.targets setup.kinds
  if scan.evicted then .reset scan.latest
  else match scan.event with
    | some entry => .event entry
    | none => if allTerminal then .ended scan.latest else .pending scan.latest

/-- What the result will say: the arguments of `turn_result`. -/
structure Verdict where
  reason : SessionWaitTurnReason
  event : Option TurnEntry
  cursorSeq : ℕ

/-- `turn_outcome_result`, before the result is built. -/
def turnOutcomeResult (afterSeq : ℕ) (allTerminal atDeadline : Bool) :
    Option Verdict :=
  match turnOutcome setup journal afterSeq allTerminal with
  | .event entry => some ⟨.event, some entry, entry.seq⟩
  | .ended latest => some ⟨.targetsEnded, none, latest⟩
  | .reset latest => some ⟨.cursorReset, none, latest⟩
  | .pending latest => if atDeadline then some ⟨.timeout, none, latest⟩ else none

def turnProgress (id : SessionId) (info : SessionInfo) (sinceNanos : ℕ) :
    SessionTurnProgress :=
  let progress := journal.progress id
  let lastOutput := progress.bind fun progress => nonZero progress.lastOutputNanos
  let turnStarted := progress.bind fun progress => nonZero progress.turnStartedNanos
  { sessionId := id
    state := info.state
    activity := info.activity
    lastOutputAt := lastOutput.bind setup.rfc3339
    outputAdvanced := lastOutput.any (sinceNanos < ·)
    turnStartedAt := turnStarted.bind setup.rfc3339 }

/-! ### The call -/

/-- Which check of the wait it is. -/
inductive Check
  | first | woken | deadline
  deriving DecidableEq

/-- A decided call: the position it was placed at, if it was, and the journal
it was decided on. -/
structure Decision where
  verdict : Verdict
  sinceNanos : ℕ
  after : Option ℕ
  journal : Journal

inductive Phase
  | ready
  /-- The targets that are still to be found. -/
  | finding (callNanos : ℕ) (rest : List SessionId)
  /-- The cursor could not be placed. -/
  | unplaced (callNanos : ℕ)
  /-- The targets whose states are still to be read, and whether all were
  terminal so far. -/
  | reading (position : CursorPosition) (check : Check) (rest : List SessionId) (allTerminal : Bool)
  | acquiring (position : CursorPosition)
  | parked (position : CursorPosition)
  /-- The targets whose progress is still to be read. -/
  | reporting (decision : Decision) (rest : List SessionId) (progress : List SessionTurnProgress)

/-- A result the client got, in its `call`th call, which was made with the
cursor `asked`. -/
structure Answer where
  call : ℕ
  asked : Option Text
  decision : Decision
  result : SessionWaitTurnResult

structure World where
  sessions : SessionId → Option SessionInfo
  journal : Journal
  phase : Phase
  /-- The client's cursor, and the calls it has begun. -/
  cursor : Option Text
  calls : ℕ
  log : List TurnEntry
  answers : List Answer

/-- Nothing has happened; the client may hold any cursor. -/
def World.initial (cursor : Option Text) : World := ⟨fun _ => none, .new, .ready, cursor, 0, [], []⟩

inductive Action
  | record (id : SessionId) (kind : SessionTurnEventKind) (stamp : String)
      (notificationId : Option NotificationId)
  | observe (now : ℕ) (id : SessionId) (info : SessionInfo) (stamp : String)
  /-- What is shown of a session changes without a state being observed. -/
  | display (id : SessionId) (info : Option SessionInfo)
  | forget (id : SessionId)
  | progress (id : SessionId) (progress : TurnProgress)
  | call (callNanos : ℕ)
  | find
  | place
  | reset
  | read
  | scan
  | acquire (granted : Bool)
  | wake
  | expire
  | shutdown
  | report
  | finish (issued : ℕ)

namespace World

/-- `record`. -/
def journaled (w : World) (journal : Journal) (entry : TurnEntry) : World :=
  { w with journal := journal, log := w.log ++ [entry] }

/-- The call fails: the client keeps its cursor. -/
def fail (w : World) : World := { w with phase := .ready }

def decided (w : World) (setup : Setup) (verdict : Verdict) (sinceNanos : ℕ)
    (after : Option ℕ) : World :=
  { w with phase := .reporting ⟨verdict, sinceNanos, after, w.journal⟩ setup.targets [] }

/-- A check of the wait begins with the states of the targets. -/
def checking (w : World) (setup : Setup) (position : CursorPosition) (check : Check) : World :=
  { w with phase := .reading position check setup.targets true }

/-- `inspect`, which fails for an unknown session. -/
def inspect (w : World) (id : SessionId) (k : SessionInfo → World) : World :=
  match w.sessions id with
  | some info => k info
  | none => w.fail

/-- The result is built, with a fresh cursor. -/
def finished (w : World) (setup : Setup) (decision : Decision) (progress : List SessionTurnProgress)
    (issued : ℕ) : World :=
  let result : SessionWaitTurnResult :=
    { reason := decision.verdict.reason
      event := decision.verdict.event.map TurnEntry.event
      cursor := cursorText setup.epoch decision.verdict.cursorSeq issued
      progress := progress }
  { w with
    phase := .ready
    cursor := some result.cursor
    answers := w.answers ++ [⟨w.calls, w.cursor, decision, result⟩] }

def next (setup : Setup) (w : World) : Action → Option World
  | .record id kind stamp notificationId =>
    let entry := w.journal.entry id kind stamp notificationId
    (w.journal.append setup.capacity entry).map fun journal => w.journaled journal entry
  | .observe now id info stamp =>
    (w.journal.observeState setup.capacity now id info.state stamp).map fun journal =>
      { w with
        journal := journal
        sessions := Function.update w.sessions id (some info)
        log := w.log ++ (w.journal.exit id info.state stamp).toList }
  | .display id info => some { w with sessions := Function.update w.sessions id info }
  | .forget id => some { w with journal := w.journal.forget id }
  | .progress id progress =>
    some { w with
      journal := { w.journal with progress := Function.update w.journal.progress id (some progress) } }
  | .call callNanos =>
    match w.phase with
    | .ready => some { w with phase := .finding callNanos setup.targets, calls := w.calls + 1 }
    | _ => none
  | .find =>
    match w.phase with
    | .finding callNanos (id :: rest) =>
      some (w.inspect id fun _ => { w with phase := .finding callNanos rest })
    | _ => none
  | .place =>
    match w.phase with
    | .finding callNanos [] =>
      match w.cursor with
      | none => some (w.checking setup ⟨w.journal.latest, callNanos⟩ .first)
      | some cursor =>
        match w.journal.place setup.epoch cursor with
        | some position => some (w.checking setup position .first)
        | none => some { w with phase := .unplaced callNanos }
    | _ => none
  | .reset =>
    match w.phase with
    | .unplaced callNanos => some (w.decided setup ⟨.cursorReset, none, w.journal.latest⟩ callNanos none)
    | _ => none
  | .read =>
    match w.phase with
    | .reading position check (id :: rest) allTerminal =>
      some (w.inspect id fun info =>
        { w with phase := .reading position check rest (allTerminal && info.state.isTerminal) })
    | _ => none
  | .scan =>
    match w.phase with
    | .reading position check [] allTerminal =>
      match turnOutcomeResult setup w.journal position.seq allTerminal (check = .deadline) with
      | some verdict => some (w.decided setup verdict position.issuedNanos (some position.seq))
      | none => some { w with phase := if check = .first then .acquiring position else .parked position }
    | _ => none
  | .acquire granted =>
    match w.phase with
    | .acquiring position => some (if granted then { w with phase := .parked position } else w.fail)
    | _ => none
  | .wake =>
    match w.phase with
    | .parked position => some (w.checking setup position .woken)
    | _ => none
  | .expire =>
    match w.phase with
    | .parked position => some (w.checking setup position .deadline)
    | _ => none
  | .shutdown =>
    match w.phase with
    | .parked _ => some w.fail
    | _ => none
  | .report =>
    match w.phase with
    | .reporting decision (id :: rest) progress =>
      some (w.inspect id fun info =>
        { w with
          phase := .reporting decision rest
            (progress ++ [turnProgress setup w.journal id info decision.sinceNanos]) })
    | _ => none
  | .finish issued =>
    match w.phase with
    | .reporting decision [] progress =>
      if issued ≤ u64Max then some (w.finished setup decision progress issued) else none
    | _ => none

end World

/-- The world and what happens in it. -/
structure WaitMoment where
  world : World
  action : Action

def WaitStep (setup : Setup) (w : World) (m : WaitMoment) (w' : World) : Prop :=
  m.world = w ∧ w.next setup m.action = some w'

end Pohunek.Turns
