/-
# Exchanges on the worker control stream

The shared control connection of `crates/daemon/src/runtime/client.rs`:
`exchange_tracked` with `drain_marked`, `reconcile_interrupted_send`,
`read_response` and the `SendGuard`, the exchange of `stop_within`, and the
reader task `drain_control_reads`. The frames are those of `ControlWriter` in
`crates/worker-protocol/src/codec.rs`.

An exchange holds the connection from its first to its last await. `Phase` is
the await it is at, and an `Event` is what ends that await or drops the caller
there. The worker answers each complete line of the bytes sent once, in order,
with the id of the request on it. `ControlStream.past` keeps what every exchange sent
and how it ended.
-/
import Pohunek.Lib.Run
import Pohunek.Lib.LineLog

namespace Pohunek.Control

/-! ### Messages -/

inductive RequestKind
  | negotiate | acquireController | inspect | initializeRuntime | openDataStream
  | terminalSnapshot | readOutput | writePlan
  | resize | stop | acknowledgeTerminal | releaseController | recordActiveIdentity | releaseActiveIdentity
  deriving DecidableEq

def RequestKind.label : RequestKind → String
  | negotiate => "negotiate"
  | acquireController => "acquire_controller"
  | inspect => "inspect"
  | initializeRuntime => "initialize"
  | openDataStream => "open_data_stream"
  | terminalSnapshot => "terminal_snapshot"
  | readOutput => "read_output"
  | writePlan => "write_plan"
  | resize => "resize"
  | stop => "stop"
  | acknowledgeTerminal => "acknowledge_terminal"
  | releaseController => "release_controller"
  | recordActiveIdentity => "record_active_identity"
  | releaseActiveIdentity => "release_active_identity"

/-- An input write and a stop are answered on a bound of their own. -/
def answerIsBounded : RequestKind → Bool
  | .writePlan | .stop => false
  | _ => true

/-- A request; `fields` are the typed fields of its kind. -/
structure ControlRequest (φ : Type*) where
  requestId : String
  kind : RequestKind
  fields : φ
  deriving DecidableEq

structure ControlResponse (ρ : Type*) where
  requestId : String
  kind : ρ
  deriving DecidableEq

inductive ControlMessage (ρ : Type*)
  | request
  | response (response : ControlResponse ρ)
  | event
  deriving DecidableEq

inductive ExchangePhase
  | send | answer
  deriving DecidableEq

inductive WorkerError
  | protocol (message : String)
  | responseMismatch
  | tornStream
  | exchangeTimedOut (request : String) (phase : ExchangePhase) (bound : ℕ)
  | stopUnanswered (bound : ℕ) (stage : String)
  deriving DecidableEq

/-! ### Frames -/

def newline : UInt8 := 10

/-- `MAX_CONTROL_LINE_BYTES`. -/
def maxControlLineBytes : ℕ := 1024 * 1024

/-- The JSON text of requests, and the request id the worker reads off a
line. -/
structure Codec (φ : Type*) where
  encode : ControlRequest φ → Except String (List UInt8)
  requestId : List UInt8 → Option String
  oneLine : ∀ r bytes, encode r = .ok bytes → newline ∉ bytes

namespace Codec

variable {φ : Type*} (codec : Codec φ)

/-- `ControlWriter::encode`, without the newline; an error is its text. -/
def line (r : ControlRequest φ) : Except String (List UInt8) :=
  match codec.encode r with
  | .error e => .error ("worker control JSON is invalid: " ++ e)
  | .ok bytes =>
    if maxControlLineBytes < bytes.length then
      .error s!"worker control line is {bytes.length} bytes; maximum is {maxControlLineBytes}"
    else .ok bytes

def frame (r : ControlRequest φ) : Except String (List UInt8) := (codec.line r).map (· ++ [newline])

end Codec

/-- The complete lines of the bytes sent. -/
def completeLines (bytes : List UInt8) : List (List UInt8) :=
  ((LineLog.split newline bytes).filter (·.2)).map (·.1)

/-! ### The connection -/

structure Abandoned where
  requestId : String
  bounded : Bool
  deriving DecidableEq

inductive StreamState
  | ready
  | unread (abandoned : Abandoned)
  | torn
  deriving DecidableEq

inductive SendState
  | idle | inFlight | interrupted
  deriving DecidableEq

structure Expiry where
  request : String
  phase : ExchangePhase
  bound : ℕ
  deriving DecidableEq

def Expiry.error (e : Expiry) : WorkerError := .exchangeTimedOut e.request e.phase e.bound

structure ExchangeDeadlines where
  send : ℕ
  answer : ℕ
  deriving DecidableEq

structure Inner where
  deadlines : ExchangeDeadlines
  exchanges : ℕ
  streamState : StreamState
  expired : Option Expiry
  sendState : SendState
  deriving DecidableEq

namespace Inner

def expire (inner : Inner) (request : String) (phase : ExchangePhase) (bound : ℕ) : Inner :=
  { inner with streamState := .torn, expired := some ⟨request, phase, bound⟩ }

/-- `SendGuard::drop`. -/
def dropGuard (inner : Inner) : Inner :=
  if inner.sendState = .inFlight then { inner with sendState := .interrupted } else inner

def reconcileInterruptedSend (inner : Inner) : Inner :=
  if inner.sendState = .interrupted then
    { inner with streamState := .torn, sendState := .idle } else inner

end Inner

/-- `RESPONSE_QUEUE`. -/
def responseQueue : ℕ := 1

structure Responses (ρ : Type*) where
  messages : List (ControlMessage ρ)
  ended : Option String
  deriving DecidableEq

namespace Responses

variable {ρ : Type*}

/-- `Responses::next`; without an answer it waits. -/
def next (responses : Responses ρ) : Option (Except WorkerError (ControlMessage ρ) × Responses ρ) :=
  match responses.messages with
  | message :: rest => some (.ok message, { responses with messages := rest })
  | [] => responses.ended.map fun reason => (.error (.protocol reason), responses)

/-- The reader task takes a message off the connection. -/
def deliver (responses : Responses ρ) : ControlMessage ρ → Responses ρ
  | .event => responses
  | message =>
    if responses.messages.length < responseQueue then
      { responses with messages := responses.messages ++ [message] }
    else { responses with ended := some "worker sent a control message nobody was waiting for" }

end Responses

/-- One turn of the loop of `read_response`; `none` goes round again. -/
def readResponse {ρ : Type*} (expected : String) :
    ControlMessage ρ → Option (Except WorkerError (ControlResponse ρ))
  | .response response =>
    some (if response.requestId = expected then .ok response else .error .responseMismatch)
  | .event => none
  | .request => some (.error .responseMismatch)

/-! ### Exchanges -/

/-- The waits of a stop that hold once it has the connection. -/
structure StopWaits where
  input : ℕ
  answer : ℕ
  deriving DecidableEq

/-- The await an exchange is at. -/
inductive Phase
  /-- It reads the answer to an abandoned request. -/
  | draining (abandoned : Abandoned) (bound : ℕ)
  /-- It writes the rest of its frame, or flushes when nothing is left. -/
  | sending (bound : ℕ) (rest : List UInt8)
  /-- It reads the answer to its own request. -/
  | awaiting (bound : Option ℕ)
  deriving DecidableEq

/-- How an exchange ended. -/
inductive Outcome (ρ : Type*)
  | answered (kind : ρ)
  | refused (error : WorkerError)
  | writeFailed (error : WorkerError)
  | readFailed (error : WorkerError)
  /-- The caller was dropped during the write. -/
  | interrupted
  /-- The caller was dropped at another await. -/
  | dropped
  deriving DecidableEq

/-- What the caller of an exchange sees. -/
def Outcome.result {ρ : Type*} : Outcome ρ → Option (Except WorkerError ρ)
  | answered kind => some (.ok kind)
  | refused error | writeFailed error | readFailed error => some (.error error)
  | interrupted | dropped => none

/-- An exchange that acquired the stream, with the bytes it sent; it has no
outcome while it runs. -/
structure Exchange (φ ρ : Type*) where
  request : ControlRequest φ
  written : List UInt8
  outcome : Option (Outcome ρ)
  deriving DecidableEq

/-- The exchange that holds the connection; `waits` are those of a stop. -/
structure Holder (φ : Type*) where
  request : ControlRequest φ
  waits : Option StopWaits
  written : List UInt8
  phase : Phase
  deriving DecidableEq

structure ControlStream (φ ρ : Type*) where
  inner : Inner
  responses : Responses ρ
  holder : Option (Holder φ)
  past : List (Exchange φ ρ)
  /-- The bytes the socket accepted. -/
  wire : List UInt8
  /-- The answers of the worker, in order. -/
  answers : List (ControlResponse ρ)
  /-- What the worker sent and the reader task has not read. -/
  inbound : List (ControlMessage ρ)
  deriving DecidableEq

inductive Event (φ ρ : Type*)
  /-- A caller takes the free connection and runs to its first await. -/
  | acquire (request : ControlRequest φ) (waits : Option StopWaits)
  | write (n : ℕ)
  | sent
  | sendFail (message : String)
  | sendTimeout
  | receive
  | readTimeout
  | drop
  /-- The bound a stop puts around its exchange elapses. -/
  | stopTimeout
  | answer (kind : ρ)
  | emit
  | deliver
  | close (reason : String)
  | configure (deadlines : ExchangeDeadlines)
  deriving DecidableEq

/-- `ABANDONED_ANSWER_LIMIT`, in seconds. -/
def abandonedAnswerLimit : ℕ := 600

namespace ControlStream

variable {φ ρ : Type*}

def new (deadlines : ExchangeDeadlines) : ControlStream φ ρ where
  inner := ⟨deadlines, 0, .ready, none, .idle⟩
  responses := ⟨[], none⟩
  holder := none
  past := []
  wire := []
  answers := []
  inbound := []

/-- Every exchange that acquired the stream, in that order. -/
def log (s : ControlStream φ ρ) : List (Exchange φ ρ) :=
  s.past ++ (s.holder.map fun h => ⟨h.request, h.written, none⟩).toList

/-- The exchange ends and gives the connection back. -/
def finish (s : ControlStream φ ρ) (h : Holder φ) (inner : Inner) (outcome : Outcome ρ) :
    ControlStream φ ρ :=
  { s with inner := inner, holder := none, past := s.past ++ [⟨h.request, h.written, some outcome⟩] }

variable (codec : Codec φ)

/-- The exchange starts its write; a request that has no frame fails at once,
under the guard. -/
def send (s : ControlStream φ ρ) (h : Holder φ) (inner : Inner) : ControlStream φ ρ :=
  let armed := { inner with sendState := .inFlight }
  match codec.frame h.request with
  | .error e => s.finish h armed.dropGuard (.writeFailed (.protocol e))
  | .ok frame =>
        { s with inner := armed, holder := some { h with phase := .sending inner.deadlines.send frame } }

/-- A stop reports a drain that took too long as its own. -/
def drainError (waits : Option StopWaits) (error : WorkerError) : WorkerError :=
  match waits, error with
  | some _, .exchangeTimedOut "abandoned_response" .answer bound =>
    .stopUnanswered bound "because an abandoned request kept the control connection busy"
  | _, error => error

def acquire (s : ControlStream φ ρ) (request : ControlRequest φ) (waits : Option StopWaits) :
    Option (ControlStream φ ρ) :=
  if s.holder.isSome then none
  else
    let h : Holder φ := ⟨request, waits, [], .awaiting none⟩
    -- a stop looks at the stream before it drains
    if waits.isSome && s.inner.streamState = .torn then
      some (s.finish h s.inner (.refused .tornStream))
    else
      let inner := s.inner.reconcileInterruptedSend
      match inner.streamState with
      | .torn => some (s.finish h inner
        (.refused (drainError waits (inner.expired.elim .tornStream Expiry.error))))
      | .ready => some (s.send codec h inner)
      | .unread abandoned =>
        let limit := waits.elim abandonedAnswerLimit (·.input)
        let bound := if abandoned.bounded then inner.deadlines.answer else limit
        some { s with inner := inner, holder := some { h with phase := .draining abandoned bound } }

def write (s : ControlStream φ ρ) (n : ℕ) : Option (ControlStream φ ρ) :=
  match s.holder with
  | some ⟨request, waits, written, .sending bound rest⟩ =>
    if 0 < n ∧ n ≤ rest.length then
      some { s with
        holder := some ⟨request, waits, written ++ rest.take n, .sending bound (rest.drop n)⟩
        wire := s.wire ++ rest.take n }
    else none
  | _ => none

/-- The frame is written and flushed. -/
def sent (s : ControlStream φ ρ) : Option (ControlStream φ ρ) :=
  match s.holder with
  | some ⟨request, waits, written, .sending _ []⟩ =>
    let bounded := answerIsBounded request.kind
    let inner := { s.inner with
      exchanges := s.inner.exchanges + 1
      streamState := .unread ⟨request.requestId, bounded⟩
      sendState := .idle }
    let bound := if bounded then some inner.deadlines.answer else none
    some { s with inner := inner, holder := some ⟨request, waits, written, .awaiting bound⟩ }
  | _ => none

def sendFail (s : ControlStream φ ρ) (message : String) : Option (ControlStream φ ρ) :=
  match s.holder with
  | some ⟨request, waits, written, .sending bound rest⟩ =>
    some (s.finish ⟨request, waits, written, .sending bound rest⟩ s.inner.dropGuard
      (.writeFailed (.protocol message)))
  | _ => none

def sendTimeout (s : ControlStream φ ρ) : Option (ControlStream φ ρ) :=
  match s.holder with
  | some ⟨request, waits, written, .sending bound rest⟩ =>
    some (s.finish ⟨request, waits, written, .sending bound rest⟩
      (s.inner.expire request.kind.label .send bound).dropGuard
      (.writeFailed (.exchangeTimedOut request.kind.label .send bound)))
  | _ => none

/-- The read of an exchange has a result. -/
def received (s : ControlStream φ ρ) (h : Holder φ) (inner : Inner)
    (result : Except WorkerError (ControlResponse ρ)) : ControlStream φ ρ :=
  match h.phase, result with
  | .draining _ _, .ok _ => s.send codec h { inner with streamState := .ready }
  | .draining _ _, .error e =>
    s.finish h { inner with streamState := .torn } (.readFailed (drainError h.waits e))
  | .awaiting _, .ok response =>
    s.finish h { inner with streamState := .ready } (.answered response.kind)
  | .awaiting _, .error e => s.finish h { inner with streamState := .torn } (.readFailed e)
  | .sending _ _, _ => s

/-- The id of the response an exchange waits for. -/
def Holder.expects (h : Holder φ) : Option String :=
  match h.phase with
  | .draining abandoned _ => some abandoned.requestId
  | .awaiting _ => some h.request.requestId
  | .sending _ _ => none

def receive (s : ControlStream φ ρ) : Option (ControlStream φ ρ) :=
  s.holder.bind fun h =>
    match Holder.expects h, s.responses.next with
    | some _, some (.error e, responses) =>
      some ({ s with responses := responses }.received codec h s.inner (.error e))
    | some expected, some (.ok message, responses) =>
      match readResponse expected message with
      | none => some { s with responses := responses }
      | some result => some ({ s with responses := responses }.received codec h s.inner result)
    | _, _ => none

def readTimeout (s : ControlStream φ ρ) : Option (ControlStream φ ρ) :=
  s.holder.bind fun h =>
    match h.phase with
    | .draining _ bound =>
      some (s.received codec h (s.inner.expire "abandoned_response" .answer bound)
        (.error (.exchangeTimedOut "abandoned_response" .answer bound)))
    | .awaiting (some bound) =>
      some (s.received codec h (s.inner.expire h.request.kind.label .answer bound)
        (.error (.exchangeTimedOut h.request.kind.label .answer bound)))
    | _ => none

def drop (s : ControlStream φ ρ) : Option (ControlStream φ ρ) :=
  s.holder.map fun h =>
    s.finish h s.inner.dropGuard (match h.phase with | .sending _ _ => .interrupted | _ => .dropped)

def stopTimeout (s : ControlStream φ ρ) : Option (ControlStream φ ρ) :=
  s.holder.bind fun h =>
    match h.waits, h.phase with
    | some waits, .sending _ _ =>
      some (s.finish h (s.inner.dropGuard.expire "stop" .answer waits.answer)
        (.writeFailed (.stopUnanswered waits.answer "after the request was sent")))
    | some waits, .awaiting _ =>
      some (s.finish h (s.inner.dropGuard.expire "stop" .answer waits.answer)
        (.readFailed (.stopUnanswered waits.answer "after the request was sent")))
    | _, _ => none

/-- The worker answers the next complete line. -/
def answer (s : ControlStream φ ρ) (kind : ρ) : Option (ControlStream φ ρ) :=
  ((completeLines s.wire)[s.answers.length]?.bind codec.requestId).map fun id =>
    { s with answers := s.answers ++ [⟨id, kind⟩], inbound := s.inbound ++ [.response ⟨id, kind⟩] }

/-- The reader task reads the next message. -/
def deliver (s : ControlStream φ ρ) : Option (ControlStream φ ρ) :=
  match s.responses.ended, s.inbound with
  | none, message :: rest =>
    some { s with responses := s.responses.deliver message, inbound := rest }
  | _, _ => none

/-- The reader task finds the connection closed or its input damaged. -/
def close (s : ControlStream φ ρ) (reason : String) : Option (ControlStream φ ρ) :=
  match s.responses.ended with
  | none => some { s with responses := { s.responses with ended := some reason } }
  | some _ => none

def step (s : ControlStream φ ρ) : Event φ ρ → Option (ControlStream φ ρ)
  | .acquire request waits => s.acquire codec request waits
  | .write n => s.write n
  | .sent => s.sent
  | .sendFail message => s.sendFail message
  | .sendTimeout => s.sendTimeout
  | .receive => s.receive codec
  | .readTimeout => s.readTimeout codec
  | .drop => s.drop
  | .stopTimeout => s.stopTimeout
  | .answer kind => s.answer codec kind
  | .emit => some { s with inbound := s.inbound ++ [.event] }
  | .deliver => s.deliver
  | .close reason => s.close reason
  | .configure deadlines => some { s with inner := { s.inner with deadlines := deadlines } }

end ControlStream

/-- A control stream from its handshake on. -/
abbrev StreamRun {φ ρ : Type*} (codec : Codec φ) (deadlines : ExchangeDeadlines) :
    List (Event φ ρ) → ControlStream φ ρ → Prop :=
  Runs.Run (fun s e t => ControlStream.step codec s e = some t) (.new deadlines)

end Pohunek.Control
