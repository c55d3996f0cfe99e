/-
# The output hub and its subscribers

`OutputHub`, `OutputSubscriber` and what they own, of
`crates/session-worker/src/output.rs`. Every public call takes the hub lock
for its whole effect, so one call is one step; `recv` is one poll of its
loop. The shared pointers of the source become handles: a subscriber is a
number, `OutputHub.subscribers` maps the handles alive to their queues, and a
`Weak` reference in the hub is a handle that may no longer be mapped.

`Notify` keeps one permit: `notify_one` stores it, a poll that finds nothing
takes it and looks again, and parks when there is none. A parked `recv`
continues only once a permit is there.

The observation waiters (`wait_for_observation`) are not modelled: they read
the hub and wake nobody else.
-/
import Pohunek.Output.Ring
import Pohunek.Output.Terminal
import Pohunek.Lib.Run
import Pohunek.Stream.Frame

namespace Pohunek.Output

/-- `Range<u64>`. -/
structure OffsetRange where
  start : ℕ
  stop : ℕ
  deriving DecidableEq

/-- One fragment of a terminal repaint. -/
structure TerminalChunk where
  terminal : TerminalSnapshot
  offset : ℕ
  totalBytes : ℕ
  bytes : List UInt8
  deriving DecidableEq

inductive OutputEvent
  | replay (chunk : OutputChunk)
  | output (chunk : OutputChunk)
  | gap (missing : OffsetRange) (watermark : ℕ)
  | terminalSnapshot (chunk : TerminalChunk)
  | exit (nextOffset : ℕ)
  deriving DecidableEq

namespace OutputEvent

def payloadBytes : OutputEvent → ℕ
  | replay chunk => chunk.bytes.length
  | output chunk => chunk.bytes.length
  | terminalSnapshot chunk => chunk.bytes.length
  | gap _ _ => 0
  | exit _ => 0

def nextOffset : OutputEvent → ℕ
  | replay chunk => chunk.endOffset
  | output chunk => chunk.endOffset
  | gap _ watermark => watermark
  | terminalSnapshot chunk => chunk.terminal.watermark
  | exit nextOffset => nextOffset

end OutputEvent

inductive OutputCloseReason
  | eof
  | forced
  deriving DecidableEq

inductive OutputCompletion
  | eof (nextOffset : ℕ)
  | forcedClosed (nextOffset : ℕ)
  deriving DecidableEq

def OutputCompletion.nextOffset : OutputCompletion → ℕ
  | eof n => n
  | forcedClosed n => n

/-! ### One subscriber -/

structure ReplayCursor where
  next : ℕ
  stop : ℕ
  emptyPending : Bool
  deriving DecidableEq

def ReplayCursor.new (range : OffsetRange) : ReplayCursor :=
  ⟨range.start, range.stop, decide (range.stop ≤ range.start)⟩

structure SnapshotCursor where
  missing : OffsetRange
  terminal : TerminalSnapshot
  gapPending : Bool
  next : ℕ
  deriving DecidableEq

namespace SnapshotCursor

def new (missing : OffsetRange) (terminal : TerminalSnapshot) : SnapshotCursor :=
  ⟨missing, terminal, true, 0⟩

def withoutGap (terminal : TerminalSnapshot) : SnapshotCursor :=
  ⟨⟨terminal.watermark, terminal.watermark⟩, terminal, false, 0⟩

end SnapshotCursor

structure SubscriberState where
  replay : Option ReplayCursor
  snapshot : Option SnapshotCursor
  events : List OutputEvent
  queuedBytes : ℕ
  expectedOffset : ℕ
  closed : Bool
  deriving DecidableEq

inductive QueueSeed
  | replay (range : OffsetRange)
  | gap (missing : OffsetRange) (terminal : TerminalSnapshot)
  | snapshot (terminal : TerminalSnapshot)
  deriving DecidableEq

/-- `SubscriberQueue`, with the permit of its `Notify` and whether the
subscriber's `recv` is parked on it. -/
structure SubscriberQueue where
  limit : ℕ
  eventLimit : ℕ
  state : SubscriberState
  permit : Bool
  parked : Bool
  deriving DecidableEq

namespace SubscriberQueue

def new (limit : ℕ) (seed : QueueSeed) : SubscriberQueue :=
  let expectedOffset := match seed with
    | .replay range => range.start
    | .gap missing _ => missing.start
    | .snapshot terminal => terminal.watermark
  let cursors : Option ReplayCursor × Option SnapshotCursor := match seed with
    | .replay range => (some (ReplayCursor.new range), none)
    | .gap missing terminal => (none, some (SnapshotCursor.new missing terminal))
    | .snapshot terminal => (none, some (SnapshotCursor.withoutGap terminal))
  { limit := limit
    eventLimit := min Stream.maxDataPayloadBytes limit
    state := ⟨cursors.1, cursors.2, [], 0, expectedOffset, false⟩
    permit := false
    parked := false }

/-- A full queue drops everything and asks for a repaint. -/
def pushOutput (q : SubscriberQueue) (chunk : OutputChunk) (terminal : TerminalSnapshot) :
    SubscriberQueue :=
  let s := q.state
  let required := chunk.bytes.length
  let state : SubscriberState :=
    if q.limit < s.queuedBytes + required then
      { s with
        replay := none
        snapshot := some (SnapshotCursor.new ⟨s.expectedOffset, terminal.watermark⟩ terminal)
        events := []
        queuedBytes := 0 }
    else { s with queuedBytes := s.queuedBytes + required, events := s.events ++ [.output chunk] }
  { q with state := state, permit := true }

def pushTerminal (q : SubscriberQueue) (nextOffset : ℕ) : SubscriberQueue :=
  { q with
    state := { q.state with events := q.state.events ++ [.exit nextOffset], closed := true }
    permit := true }

end SubscriberQueue

/-! ### The hub -/

structure HubState (τ : Type) where
  ring : OutputRing
  terminal : τ
  terminalSnapshot : TerminalSnapshot
  subscribers : List ℕ
  completion : Option OutputCompletion
  probe : Option ProbeResponder

/-- One bounded page of retained output. -/
structure ObservationPage where
  historyStartOffset : ℕ
  startOffset : ℕ
  nextOffset : ℕ
  runtimeEndOffset : ℕ
  bytes : List UInt8
  gap : Option OffsetRange
  hasMore : Bool
  exited : Bool
  deriving DecidableEq

namespace HubState

variable {τ : Type}

def validateOffset (hub : HubState τ) (afterOffset : Option ℕ) : Except RingError ℕ :=
  let requested := afterOffset.getD 0
  if hub.ring.nextOffset < requested then .error (.offsetAhead requested hub.ring.nextOffset)
  else .ok requested

def observe (hub : HubState τ) (afterOffset : Option ℕ) (maxBytes : ℕ) :
    Except RingError ObservationPage := do
  if maxBytes = 0 then throw (.invalidLimit "max_bytes")
  let requested ← hub.validateOffset afterOffset
  let historyStart := hub.ring.startOffset
  let runtimeEnd := hub.ring.nextOffset
  let (start, gap) : ℕ × Option OffsetRange := match afterOffset with
    | some _ =>
      if requested < historyStart then (historyStart, some ⟨requested, historyStart⟩)
      else (requested, none)
    | none => (max (runtimeEnd - maxBytes) historyStart, none)
  let bytes := hub.ring.bytesFromLimited start maxBytes
  let next := satAdd start bytes.length
  return {
    historyStartOffset := historyStart
    startOffset := start
    nextOffset := next
    runtimeEndOffset := runtimeEnd
    bytes := bytes
    gap := gap
    hasMore := decide (next < runtimeEnd)
    exited := hub.completion.isSome }

def subscriptionSeed (hub : HubState τ) (afterOffset : Option ℕ) : Except RingError QueueSeed := do
  let requested ← hub.validateOffset afterOffset
  if requested < hub.ring.startOffset then
    return .gap ⟨requested, hub.ring.nextOffset⟩ hub.terminalSnapshot
  return .replay ⟨requested, hub.ring.nextOffset⟩

end HubState

namespace SubscriberState

variable {τ : Type}

/-- `next_event`, last source: the queue. -/
def nextQueued (s : SubscriberState) : SubscriberState × Option OutputEvent :=
  match s.events with
  | [] => (s, none)
  | event :: events =>
    ({ s with
        events := events
        queuedBytes := s.queuedBytes - event.payloadBytes
        expectedOffset := event.nextOffset }, some event)

/-- `next_event`, second source: the repaint cursor. -/
def nextRepaint (s : SubscriberState) (eventLimit : ℕ) : SubscriberState × Option OutputEvent :=
  match s.snapshot with
  | none => s.nextQueued
  | some c =>
    if c.gapPending then
      ({ s with
          snapshot := some { c with gapPending := false }
          expectedOffset := c.terminal.watermark }, some (.gap c.missing c.terminal.watermark))
    else if c.next < c.terminal.ansi.length then
      let stop := min (c.next + eventLimit) c.terminal.ansi.length
      let event := OutputEvent.terminalSnapshot
        ⟨c.terminal, c.next, c.terminal.ansi.length, c.terminal.ansi.extract c.next stop⟩
      ({ s with snapshot := if stop = c.terminal.ansi.length then none
        else some { c with next := stop } }, some event)
    else { s with snapshot := none }.nextQueued

/-- `SubscriberState::next_event`: the replay cursor comes first. An evicted
cursor drops the queue and asks for a repaint. -/
def nextEvent (s : SubscriberState) (hub : HubState τ) (eventLimit : ℕ) :
    SubscriberState × Option OutputEvent :=
  match s.replay with
  | none => s.nextRepaint eventLimit
  | some c =>
    if c.emptyPending then ({ s with replay := none }, some (.replay ⟨c.next, []⟩))
    else
      match hub.ring.chunk c.next c.stop eventLimit with
      | some chunk =>
        let next := chunk.endOffset
        ({ s with
            replay := if next = c.stop then none else some { c with next := next }
            expectedOffset := next }, some (.replay chunk))
      | none =>
        { s with
          replay := none
          snapshot := some
            (SnapshotCursor.new ⟨s.expectedOffset, hub.ring.nextOffset⟩ hub.terminalSnapshot)
          events := []
          queuedBytes := 0 }.nextRepaint eventLimit

end SubscriberState

/-- What one poll of `recv` answers. -/
inductive RecvResult
  | event (e : OutputEvent)
  | ended
  | pending
  deriving DecidableEq

namespace SubscriberQueue

variable {τ : Type}

/-- One pass of the loop of `recv`. -/
def poll (q : SubscriberQueue) (hub : HubState τ) : SubscriberQueue × RecvResult :=
  match q.state.nextEvent hub q.eventLimit with
  | (state, some event) => ({ q with state := state, parked := false }, .event event)
  | (state, none) =>
    if state.closed then ({ q with state := state, parked := false }, .ended)
    else ({ q with state := state, parked := true }, .pending)

/-- `recv`, polled: a pass that finds nothing takes the permit and makes one
more, and parks without one. -/
def recv (q : SubscriberQueue) (hub : HubState τ) : SubscriberQueue × RecvResult :=
  match q.poll hub with
  | (q', .pending) => if q'.permit then { q' with permit := false }.poll hub else (q', .pending)
  | answer => answer

end SubscriberQueue

structure OutputHub (τ : Type) where
  inner : HubState τ
  subscriberLimit : ℕ
  subscribers : ℕ → Option SubscriberQueue
  handles : ℕ

namespace OutputHub

variable {τ : Type} (M : TerminalModel τ)

def new (historyLimit subscriberLimit : ℕ) (rows cols : UInt16) :
    Except RingError (OutputHub τ) := do
  if historyLimit = 0 then throw (.invalidLimit "history_limit")
  if subscriberLimit = 0 then throw (.invalidLimit "subscriber_limit")
  let terminal := M.new rows cols
  return {
    inner := ⟨OutputRing.new historyLimit, terminal, M.snapshot terminal 0, [], none, none⟩
    subscriberLimit := subscriberLimit
    subscribers := fun _ => none
    handles := 0 }

/-- Applies `f` to every live queue of `handles`, in order. -/
def notifyAll (f : SubscriberQueue → SubscriberQueue) :
    List ℕ → (ℕ → Option SubscriberQueue) → ℕ → Option SubscriberQueue
  | [], queues => queues
  | i :: handles, queues =>
    match queues i with
    | some q => notifyAll f handles (Function.update queues i (some (f q)))
    | none => notifyAll f handles queues

def push (h : OutputHub τ) (bytes : List UInt8) : OutputHub τ × Except RingError OutputChunk :=
  if h.inner.completion.isSome ∧ bytes ≠ [] then (h, .error .closed)
  else
    match h.inner.ring.push bytes with
    | (ring, .error e) => ({ h with inner := { h.inner with ring := ring } }, .error e)
    | (ring, .ok chunk) =>
      if bytes = [] then ({ h with inner := { h.inner with ring := ring } }, .ok chunk)
      else
        let (probes, terminal) := M.takeProbes (M.feed h.inner.terminal bytes)
        let snapshot := M.snapshot terminal ring.nextOffset
        ({ h with
            inner := { h.inner with
              ring := ring
              terminal := terminal
              terminalSnapshot := snapshot
              subscribers := h.inner.subscribers.filter fun i => (h.subscribers i).isSome
              probe := h.inner.probe.map fun r => r.answer probes }
            subscribers := notifyAll (fun q => q.pushOutput chunk snapshot) h.inner.subscribers
              h.subscribers }, .ok chunk)

def answerProbes (h : OutputHub τ) : OutputHub τ :=
  { h with inner := { h.inner with probe := some {} } }

def resize (h : OutputHub τ) (rows cols : UInt16) : OutputHub τ :=
  let terminal := M.resize h.inner.terminal rows cols
  { h with inner := { h.inner with
      terminal := terminal
      terminalSnapshot := M.snapshot terminal h.inner.ring.nextOffset } }

def close (h : OutputHub τ) (reason : OutputCloseReason) : OutputHub τ × OutputCompletion :=
  match h.inner.completion with
  | some completion => (h, completion)
  | none =>
    let nextOffset := h.inner.ring.nextOffset
    let completion := match reason with
      | .eof => OutputCompletion.eof nextOffset
      | .forced => OutputCompletion.forcedClosed nextOffset
    ({ h with
        inner := { h.inner with
          completion := some completion
          probe := h.inner.probe.map fun r =>
            { r with replies := { r.replies with closed := true } }
          subscribers := [] }
        subscribers := notifyAll (fun q => q.pushTerminal nextOffset) h.inner.subscribers
          h.subscribers }, completion)

/-- `register_subscriber`; the answer is the new handle. -/
def registerSubscriber (h : OutputHub τ) (seed : QueueSeed) : OutputHub τ × ℕ :=
  let queue := SubscriberQueue.new h.subscriberLimit seed
  match h.inner.completion with
  | some completion =>
    ({ h with
        subscribers := Function.update h.subscribers h.handles
          (some (queue.pushTerminal completion.nextOffset))
        handles := h.handles + 1 }, h.handles)
  | none =>
    ({ h with
        inner := { h.inner with subscribers := h.inner.subscribers ++ [h.handles] }
        subscribers := Function.update h.subscribers h.handles (some queue)
        handles := h.handles + 1 }, h.handles)

def subscribe (h : OutputHub τ) (afterOffset : Option ℕ) : OutputHub τ × Except RingError ℕ :=
  match h.inner.subscriptionSeed afterOffset with
  | .error e => (h, .error e)
  | .ok seed => ((h.registerSubscriber seed).1, .ok (h.registerSubscriber seed).2)

def subscribeTerminalSnapshot (h : OutputHub τ) : OutputHub τ × ℕ :=
  h.registerSubscriber (.snapshot h.inner.terminalSnapshot)

end OutputHub

/-! ### The steps of the system -/

/-- What can be called on one hub and its subscribers. Dropping a subscriber
ends the life of its queue. -/
inductive Call
  | push (bytes : List UInt8)
  | resize (rows cols : UInt16)
  | close (reason : OutputCloseReason)
  | subscribe (afterOffset : Option ℕ)
  | subscribeTerminalSnapshot
  | recv (handle : ℕ)
  | drop (handle : ℕ)
  | observe (afterOffset : Option ℕ) (maxBytes : ℕ)
  | answerProbes
  deriving DecidableEq

inductive Answer
  | done
  | pushed (result : Except RingError OutputChunk)
  | closed (completion : OutputCompletion)
  | subscribed (result : Except RingError ℕ)
  | received (result : RecvResult)
  | observed (result : Except RingError ObservationPage)

/-- A call with its answer. -/
abbrev Label := Runs.Label Call Answer

namespace OutputHub

variable {τ : Type} (M : TerminalModel τ)

/-- One call; `none` where the call cannot be made: the handle is not alive,
or its `recv` is parked and holds no permit. -/
def exec (h : OutputHub τ) : Call → Option (OutputHub τ × Answer)
  | .push bytes => some ((h.push M bytes).1, .pushed (h.push M bytes).2)
  | .resize rows cols => some (h.resize M rows cols, .done)
  | .close reason => some ((h.close reason).1, .closed (h.close reason).2)
  | .subscribe afterOffset =>
    some ((h.subscribe afterOffset).1, .subscribed (h.subscribe afterOffset).2)
  | .subscribeTerminalSnapshot =>
    some ((h.subscribeTerminalSnapshot).1, .subscribed (.ok (h.subscribeTerminalSnapshot).2))
  | .recv i =>
    match h.subscribers i with
    | none => none
    | some q =>
      if q.parked ∧ ¬ q.permit then none
      else
        let (q', result) := q.recv h.inner
        some ({ h with subscribers := Function.update h.subscribers i (some q') }, .received result)
  | .drop i =>
    match h.subscribers i with
    | none => none
    | some _ => some ({ h with subscribers := Function.update h.subscribers i none }, .done)
  | .observe afterOffset maxBytes => some (h, .observed (h.inner.observe afterOffset maxBytes))
  | .answerProbes => some (h.answerProbes, .done)

/-- The step relation. -/
abbrev Step : OutputHub τ → Label → OutputHub τ → Prop := Runs.StepOf (exec M)

/-- A run of the hub made with these limits and dimensions. -/
def HubRun (historyLimit subscriberLimit : ℕ) (rows cols : UInt16) (tr : List Label)
    (h : OutputHub τ) : Prop :=
  ∃ h0, new M historyLimit subscriberLimit rows cols = .ok h0 ∧ Runs.Run (Step M) h0 tr h

end OutputHub
end Pohunek.Output
