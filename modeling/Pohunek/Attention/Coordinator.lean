/-
# The debounce coordinator of session notifications

`run`, `defer`, `resolve` and `flush` of
`crates/daemon/src/notifications/coordinator.rs`: the task that holds a
session notification pending until its debounce window has passed. A pending
entry carries the record for the inbox and the record for the turn event;
timers are never cancelled, and a timer that expires flushes its entry only
when it carries the entry's generation.

What a handler reads from the rest of the daemon while it runs is its `Env`:
the clocks, the turns of the sessions (other tasks change them at any time),
the answer of the store, and the order in which the hash map of the pending
entries is iterated. What it does there is its list of `Effect`s.

Two things are not in the source, and no decision reads them: the number of a
command is its place in the channel, and a timer carries the number of the
command that armed it, so that an expiry can be told apart from another one.
-/
import Mathlib.Data.List.AList
import Pohunek.Notifications.Record
import Pohunek.Turns.Journal

namespace Pohunek.Attention

open Notifications Turns

/-! ### What the producers hand over -/

structure InvalidDedupeKey where
  key : String
  reason : String
  deriving DecidableEq

def validateReservedDedupeKey (sessionId : Option String) (kind : NotificationKind)
    (dedupeKey : Option String) : Except InvalidDedupeKey Unit :=
  match dedupeKey with
  | none => .ok ()
  | some dedupeKey =>
    match reservedDedupeSessionSuffix dedupeKey with
    | none => .ok ()
    | some (start, suffix) =>
      if start = attentionDedupeKeyPrefix ∧ isAttentionKind kind = false then
        .error ⟨dedupeKey, "attention dedupe key requires an attention notification kind"⟩
      else if start = turnDedupeKeyPrefix ∧ kind ≠ .turnCompleted then
        .error ⟨dedupeKey, "turn dedupe key requires turn_completed kind"⟩
      else
        match sessionId with
        | none => .error ⟨dedupeKey, "reserved dedupe key requires matching session_id"⟩
        | some sessionId =>
          if suffix ≠ sessionId then
            .error ⟨dedupeKey, "reserved dedupe key session suffix must match session_id"⟩
          else .ok ()

/-- A record prepared for the coordinator. `prepare_record` has validated its
key, and `for_turn` attaches only a `turn_completed` to a turn. -/
structure DeferredNotification where
  record : NotificationRecord
  /-- The policy keeps the record in the inbox. -/
  inbox : Bool
  /-- The record stands for a turn event. -/
  signal : Bool
  turn : Option TurnId
  minted : ℕ
  valid : validateReservedDedupeKey record.sessionId record.kind record.dedupeKey = .ok ()
  ofTurn : turn ≠ none → record.kind = .turnCompleted

structure ResolveAsOf where
  mintedBefore : ℕ
  monotonic : ℕ
  deriving DecidableEq

/-! ### The state of the task -/

abbrev PendingKey := String × Option TurnId

structure Pending where
  inbox : Option NotificationRecord
  signal : Option NotificationRecord
  repeatWindow : ℕ
  newestForeign : Option ℕ
  generation : ℕ

structure FlushToken where
  key : PendingKey
  generation : ℕ
  deriving DecidableEq

/-- A timer of the `DelayQueue`. -/
structure Timer where
  token : FlushToken
  deadline : ℕ
  number : ℕ
  deriving DecidableEq

/-- The locals of `run`, with the last reading of the clock and the number of
the last command. -/
structure Coordinator where
  pending : AList fun _ : PendingKey => Pending
  queue : List Timer
  generation : ℕ
  recentlyResolvedTurns : String → Option ℕ
  clock : ℕ
  number : ℕ

def Coordinator.new : Coordinator := ⟨∅, [], 0, fun _ => none, 0, 0⟩

def nanosPerSec : ℕ := 1000000000

/-- `HELD_REPORT_RECHECK_FLOOR`. -/
def heldReportRecheckFloor : ℕ := nanosPerSec

/-- `REPEAT_REPORT_FLOOR`. -/
def repeatReportFloor : ℕ := 2 * nanosPerSec

/-- The part of `NotificationPolicy` the coordinator reads. -/
structure Policy where
  attentionDebounceSecs : ℕ

def Policy.debounce (policy : Policy) : ℕ := policy.attentionDebounceSecs * nanosPerSec

def Policy.repeatWindow (policy : Policy) : ℕ := max (policy.debounce * 2) repeatReportFloor

/-! ### The rest of the daemon -/

structure Env where
  /-- The coordinator's clock. -/
  now : ℕ
  /-- `StdInstant::now()`, the clock records are minted with. -/
  stdNow : ℕ
  recentlyReported : SessionId → ℕ → Bool
  /-- `settle` for the owner `turn_owner` found, as `flush` reads it. -/
  settle : SessionId → TurnId → TurnVerdict
  /-- The same, as `resolve` reads it before it flushes. -/
  settleFirst : SessionId → TurnId → TurnVerdict
  currentActivity : SessionId → Option AgentActivity
  /-- The record `commit_deferred` answers. -/
  commitDeferred : NotificationRecord → ℕ → Option NotificationRecord
  order : (tokens : List FlushToken) → { iterated : List FlushToken // iterated.Perm tokens }

inductive Effect
  | commit (record : NotificationRecord) (minted : ℕ) (stamp : Option TurnSnapshot)
  | recordTurn (sessionId : SessionId) (kind : SessionTurnEventKind)
      (notificationId : Option NotificationId)
  | markReported (sessionId : SessionId) (turn : TurnId) (inbox signal : Bool)
  | noteHeldRecheck
  | acknowledge (dedupeKey : String) (asOf : Option ResolveAsOf)
  deriving DecidableEq

/-! ### Ranks -/

def priorityRank (record : NotificationRecord) : ℕ :=
  match sourcePriority record with
  | .projector => 0
  | .user => 1
  | .provider => 2

def outranks (existing incoming : NotificationRecord) :
    Bool := priorityRank incoming < priorityRank existing

def prefer (existing : Option NotificationRecord) (incoming : NotificationRecord) :
    NotificationRecord :=
  match existing with
  | some existing => if outranks existing incoming then existing else incoming
  | none => incoming

/-- The record is of a producer other than the projector. -/
def foreign (record : NotificationRecord) : Bool := sourcePriority record ≠ .projector

/-! ### Deferring -/

def pruneRecentlyResolvedTurns (resolved : String → Option ℕ) (now debounce : ℕ) :
    String → Option ℕ :=
  fun key => (resolved key).filter fun resolvedAt => now - resolvedAt ≤ debounce

/-- A provider report of a turn it does not name, which a resolve may
suppress. -/
def DeferredNotification.namelessReport (deferred : DeferredNotification)
    (dedupeKey : String) : Bool :=
  deferred.turn.isNone && deferred.inbox && deferred.record.kind = .turnCompleted &&
    isTurnDedupeKey dedupeKey && foreign deferred.record

/-- The entry of a key once a record is merged into it. A record for the inbox
is weighed only against the inbox record, a signal only against the signal. -/
def Pending.merge (policy : Policy) (existing : Option Pending) (deferred : DeferredNotification)
    (inbox : Bool)
    (generation : ℕ) : Pending :=
  let existingInbox := existing.bind (·.inbox)
  let existingSignal := existing.bind (·.signal)
  let foreignAt := if foreign deferred.record then some deferred.minted else none
  { inbox := if inbox then some (prefer existingInbox deferred.record) else existingInbox
    signal := if deferred.signal then some (prefer existingSignal deferred.record) else existingSignal
    repeatWindow := policy.repeatWindow
    newestForeign := max (existing.bind (·.newestForeign)) foreignAt
    generation := generation }

namespace Coordinator

/-- The generation an entry keeps: a record that is none for the inbox does
not re-arm the timer of an inbox record. -/
def keptGeneration (c : Coordinator) (key : PendingKey) (inbox : Bool) : Option ℕ :=
  ((c.pending.lookup key).filter fun entry => !inbox && entry.inbox.isSome).map (·.generation)

variable (policy : Policy) (env : Env)

/-- The second half of `defer`. -/
def hold (number : ℕ) (c : Coordinator) (key : PendingKey)
    (deferred : DeferredNotification) (inbox : Bool) : Coordinator :=
  let entry := Pending.merge policy (c.pending.lookup key) deferred inbox
  match c.keptGeneration key inbox with
  | some generation => { c with pending := c.pending.insert key (entry generation) }
  | none =>
    let generation := c.generation + 1
    { c with
      generation := generation
      queue := c.queue ++ [⟨⟨key, generation⟩, env.now + policy.debounce, number⟩]
      pending := c.pending.insert key (entry generation) }

/-- A report that names no turn, right after its turn reached the inbox. -/
def repeatsReportedTurn (deferred : DeferredNotification) : Bool :=
  deferred.turn.isNone && deferred.record.kind = .turnCompleted &&
    deferred.record.sessionId.any fun sessionId =>
    env.recentlyReported sessionId policy.repeatWindow

/-- Whether the inbox still takes a record: not the provider's report of a turn
that was reported or resolved just now. -/
def takes (resolved : String → Option ℕ) (dedupeKey : String)
    (deferred : DeferredNotification) : Bool :=
  deferred.inbox && !(deferred.namelessReport dedupeKey &&
    (repeatsReportedTurn policy env deferred ||
      (resolved dedupeKey).any fun resolvedAt => env.now - resolvedAt ≤ policy.debounce))

/-- What is left of the recently resolved turns. -/
def consume (resolved : String → Option ℕ) (dedupeKey : String)
    (deferred : DeferredNotification) : String → Option ℕ :=
  -- `||` does not come to the suppression of a report that repeats a reported turn
  if deferred.namelessReport dedupeKey && !repeatsReportedTurn policy env deferred then
    Function.update resolved dedupeKey none
  else resolved

def defer (number : ℕ) (c : Coordinator) (deferred : DeferredNotification) :
    Coordinator × List Effect :=
  match deferred.record.dedupeKey with
  | none => (c, if deferred.inbox then [.commit deferred.record deferred.minted none] else [])
  | some dedupeKey =>
    let resolved := pruneRecentlyResolvedTurns c.recentlyResolvedTurns env.now policy.debounce
    let inbox := takes policy env resolved dedupeKey deferred
    let c := { c with recentlyResolvedTurns := consume policy env resolved dedupeKey deferred }
    if !inbox && !deferred.signal then (c, [])
    else (c.hold policy env number (dedupeKey, deferred.turn) deferred inbox, [])

end Coordinator

/-! ### Flushing -/

def turnKind : NotificationKind → Option SessionTurnEventKind
  | .turnCompleted => some .turnCompleted
  | .agentBlocked => some .agentBlocked
  | .approvalRequired => some .approvalRequired
  | .sessionFinished | .error | .system | .unknown => none

/-- The turn event a flushed signal stands for, when it stands for one. -/
def recordTurn (env : Env) (signal : NotificationRecord) (committed : Option NotificationRecord)
    (namesTurn : Bool) : Option Effect :=
  match signal.sessionId, turnKind signal.kind with
  | some sessionId, some kind =>
    if kind = .turnCompleted ∧ namesTurn = false ∧
      env.currentActivity sessionId = some .working then none
    else
      some (.recordTurn sessionId kind
        ((committed.filter fun record => record.kind = signal.kind).map (·.id)))
  | _, _ => none

/-- The session of an entry. -/
def Pending.sessionId (entry : Pending) : Option SessionId :=
  (entry.signal.or entry.inbox).bind (·.sessionId)

/-- An inbox record that names no turn repeats the stamped record of its turn. -/
def Pending.repeatsReportedTurn (env : Env) (entry : Pending) : Bool :=
  entry.inbox.any fun record =>
    record.kind = .turnCompleted && foreign record &&
      record.sessionId.any fun sessionId => env.recentlyReported sessionId entry.repeatWindow

namespace Coordinator

/-- `flush`, for an entry that names no turn. -/
def flushUnnamed (env : Env) (c : Coordinator) (key : PendingKey) (entry : Pending) :
    Coordinator × List Effect :=
  let inbox := entry.inbox.filter fun _ => !entry.repeatsReportedTurn env
  let minted := entry.newestForeign.getD env.stdNow
  let committed := inbox.bind fun record => env.commitDeferred record minted
  ({ c with pending := c.pending.erase key },
    (inbox.map fun record => Effect.commit record minted none).toList ++
      (entry.signal.bind fun signal => recordTurn env signal committed false).toList)

variable (policy : Policy) (env : Env) (number : ℕ) (c : Coordinator)

/-- `flush`, for an entry of a turn the daemon runs. -/
def flushTurn (token : FlushToken) (turn : TurnId)
    (entry : Pending) : Coordinator × List Effect :=
  match entry.sessionId with
  | none => ({ c with pending := c.pending.erase token.key }, [])
  | some sessionId =>
    match env.settle sessionId turn with
    | .drop => ({ c with pending := c.pending.erase token.key }, [])
    | .hold after =>
      let wait := after.getD (max policy.debounce heldReportRecheckFloor)
      ({ c with queue := c.queue ++ [⟨token, env.now + wait, number⟩] }, [.noteHeldRecheck])
    | .surface snapshot =>
      let minted := entry.newestForeign.getD env.stdNow
      let inbox := entry.inbox.filter fun _ => !snapshot.inboxReported
      let committed := inbox.bind fun record => env.commitDeferred record minted
      let signaled := (entry.signal.filter fun _ => !snapshot.signalReported).bind fun signal =>
        recordTurn env signal committed true
      ({ c with pending := c.pending.erase token.key },
        (inbox.map fun record => Effect.commit record minted (some snapshot)).toList ++
          signaled.toList ++ [.markReported sessionId turn committed.isSome signaled.isSome])

def flush (token : FlushToken) :
    Coordinator × List Effect :=
  match c.pending.lookup token.key with
  | none => (c, [])
  | some entry =>
    -- superseded by a later defer, or of an entry that was resolved
    if entry.generation ≠ token.generation then (c, [])
    else
      match token.key.2 with
      | none => c.flushUnnamed env token.key entry
      | some turn => c.flushTurn policy env number token turn entry

/-! ### Resolving -/

/-- The entries of turns that closed surface before the resolve. -/
def flushClosed (policy : Policy) (env : Env) (number : ℕ) : Coordinator → List FlushToken →
    Coordinator × List Effect
  | c, [] => (c, [])
  | c, token :: tokens =>
    let surfaces := token.key.2.any fun turn =>
      ((c.pending.lookup token.key).bind Pending.sessionId).any fun sessionId =>
        match env.settleFirst sessionId turn with
        | .surface _ => true
        | _ => false
    let (c, effects) := if surfaces then c.flush policy env number token else (c, [])
    let (c, others) := flushClosed policy env number c tokens
    (c, effects ++ others)

/-- The entries of a key that name a turn, as tokens. -/
def named (c : Coordinator) (dedupeKey : String) : List FlushToken :=
  (c.pending.entries.filter fun entry => entry.1.1 = dedupeKey && entry.1.2.isSome).map fun entry =>
    ⟨entry.1, entry.2.generation⟩

/-- Another producer refreshed the entry after the moment of the resolve. -/
def refreshedSince (c : Coordinator) (key : PendingKey) (asOf : Option ResolveAsOf) : Bool :=
  (c.pending.lookup key).any fun entry =>
    asOf.any fun asOf => entry.newestForeign.any fun foreign => asOf.mintedBefore < foreign

/-- `resolve`, once the closed turns have surfaced. -/
def cancel (policy : Policy) (env : Env) (c : Coordinator) (dedupeKey : String)
    (asOf : Option ResolveAsOf) : Coordinator :=
  let unnamed : PendingKey := (dedupeKey, none)
  if c.refreshedSince unnamed asOf then c
  else
    let removedInbox := (c.pending.lookup unnamed).bind (·.inbox)
    { c with
      pending := c.pending.erase unnamed
      recentlyResolvedTurns :=
        if removedInbox.isNone && isTurnDedupeKey dedupeKey then
          Function.update (pruneRecentlyResolvedTurns c.recentlyResolvedTurns env.now
            policy.debounce) dedupeKey (some ((asOf.map (·.monotonic)).getD env.now))
        else c.recentlyResolvedTurns }

def resolve (dedupeKey : String)
    (asOf : Option ResolveAsOf) : Coordinator × List Effect :=
  let (c, effects) := c.flushClosed policy env number (env.order (c.named dedupeKey)).val
  (c.cancel policy env dedupeKey asOf, effects ++ [.acknowledge dedupeKey asOf])

end Coordinator

/-! ### The loop -/

inductive Event
  | defer (number : ℕ) (deferred : DeferredNotification)
  | resolve (number : ℕ) (dedupeKey : String) (asOf : Option ResolveAsOf)
  /-- A timer of the queue expires: the one the command armed for the key. -/
  | expire (key : PendingKey) (number : ℕ)

/-- What one turn of the loop takes up. -/
structure Input where
  event : Event
  env : Env

/-- The timer an expiry is about. A queue never yields a timer before its
deadline. -/
def Timer.due (key : PendingKey) (number now : ℕ) (timer : Timer) : Bool :=
  timer.token.key = key && timer.number = number && timer.deadline ≤ now

/-- One turn of the loop in `run`. The clock does not run backwards, and the
commands come in the order of the channel. -/
def Coordinator.handle (policy : Policy) (c : Coordinator) (input : Input) :
    Option (Coordinator × List Effect) :=
  let env := input.env
  if env.now < c.clock then none
  else
    let c := { c with clock := env.now }
    match input.event with
    | .defer number deferred =>
      if number ≤ c.number then none
      else some ({ c with number := number }.defer policy env number deferred)
    | .resolve number dedupeKey asOf =>
      if number ≤ c.number then none
      else some ({ c with number := number }.resolve policy env number dedupeKey asOf)
    | .expire key number =>
      match c.queue.find? (Timer.due key number env.now) with
      | none => none
      | some timer =>
        some ({ c with queue := c.queue.eraseP (Timer.due key number env.now) }.flush policy env
          number timer.token)

end Pohunek.Attention
