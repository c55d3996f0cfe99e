/-
# An attach stream

`serve_stream_data` of `crates/session-worker/src/server.rs`: a driver that
reads client frames, hands them to the PTY and pulls output, and a writer that
sends what the driver queued. `step` has one event for every arm of the
driver's `select!`, for every await of the writer, and for what happens around
the stream: the PTY accepting bytes, the root process exiting, the lease
changing. The arms' guards are those of the source; any ready arm may be
chosen, and the writer may wait as long as it likes.

Two arms that only wait for a free slot, and the one for a lease channel whose
sender is gone, change nothing and are left out.

`inputs`, `handed`, `received` and `sent` are what the stream accepted as input
frames, what the PTY accepted from it, what its subscriber gave it, and what it
began to send, in order. A write that was started goes on in its own task when
the driver is gone.

An `Exit` event is sent as a `Close` frame, or as an `Error` frame when the
output was closed by force, but it is not the writer's last: the loop goes on
until the driver is gone. So a frame can follow it (`frames_after_close`),
unless the driver ends before it queues anything else.
-/
import Pohunek.Stream.Frame
import Pohunek.Stream.Grants

namespace Pohunek

open List Bool

namespace Stream

open Runs (Run)

/-- The control codes a stream ends with. -/
inductive ControlCode
  | identityMismatch
  | invalidRequest
  | runtimeFault
  | inputStalled
  | writeOutcomeUnknown
  deriving DecidableEq

structure ControlError where
  code : ControlCode
  message : String
  retryable : Bool
  deriving DecidableEq

/-- The faults that end a stream with an error frame. -/
inductive StreamFault
  | write (error : ControlError)
  | ackBacklog
  | sequenceExhausted
  | frame (message : String)
  | clientFrame
  | notInput
  | identity
  | writeId
  deriving DecidableEq

def StreamFault.error : StreamFault → ControlError
  | .write error => error
  | .ackBacklog => ⟨.runtimeFault, "attach acknowledgement backlog was exceeded", false⟩
  | .sequenceExhausted => ⟨.invalidRequest, "attach input sequence was exhausted", false⟩
  | .frame message => ⟨.invalidRequest, message, false⟩
  | .clientFrame => ⟨.invalidRequest, "output data stream received a client frame", false⟩
  | .notInput => ⟨.invalidRequest, "attach data stream received a non-input frame", false⟩
  | .identity => ⟨.identityMismatch, "worker request identity does not match", false⟩
  | .writeId => ⟨.invalidRequest, "attach input id is not the next stream-scoped sequence", false⟩

inductive StreamItem (ω : Type*)
  | event (output : ω)
  | close (reason : CloseReason)
  | error (fault : StreamFault)
  deriving DecidableEq

structure StreamAck where
  writeId : String
  bytesWritten : ℕ
  deriving DecidableEq

/-- What the writer sends. -/
inductive Sent (ω : Type*)
  | ack (ack : StreamAck)
  | item (item : StreamItem ω)
  deriving DecidableEq

/-- A client frame; `input` is the write id of an input frame. -/
structure ClientFrame where
  input : Option String
  workerInstanceId : String
  streamId : String
  payload : List UInt8
  deriving DecidableEq

structure PendingAttachWrite where
  writeId : String
  bytesWritten : ℕ
  bytes : List UInt8
  deriving DecidableEq

/-- The task of a write, spawned when its future is first polled. -/
structure WriteTask where
  bytes : List UInt8
  accepted : ℕ
  result : Option (Except ControlError Unit)
  deriving DecidableEq

inductive Driver (ω : Type*)
  | running
  | finishing (item : StreamItem ω)
  | ended
  deriving DecidableEq

def Driver.isRunning {ω : Type*} : Driver ω → Bool
  | .running => true
  | _ => false

inductive Writer (ω : Type*)
  | idle
  | writing (sent : Sent ω)
  | ended
  deriving DecidableEq

/-- What a stream is served with. `deliver` takes the probe replies out of an
input's bytes, where the worker answers the probe itself. -/
structure StreamConfig (ω : Type*) where
  streamId : String
  workerInstanceId : String
  mode : StreamMode
  expectedLeaseEpoch : ℕ
  outputQueueEvents : ℕ
  ackBacklog : ℕ
  deliver : List UInt8 → List UInt8
  isExit : ω → Bool

structure AttachStream (ω : Type*) where
  driver : Driver ω
  nextInputSequence : ℕ
  pendingWrite : Option PendingAttachWrite
  task : Option WriteTask
  pendingOutputExit : Option ω
  items : List (StreamItem ω)
  acks : List StreamAck
  ackSlots : ℕ
  writer : Writer ω
  leaseEpoch : ℕ
  leaseChanged : Bool
  rootExit : Bool
  rootExitChanged : Bool
  inputs : List ClientFrame
  handed : List UInt8
  received : List ω
  sent : List (Sent ω)

inductive StreamEvent (ω : Type*)
  -- around the stream
  | lease (epoch : ℕ)
  | exited
  | ptyAccepts (n : ℕ)
  | ptyDone
  | ptyFails (error : ControlError)
  -- the arms of the driver
  | leaseArm
  | exitArm (authorized : Bool)
  | exitLost
  | outputArm (event : Option ω) (authorized : Bool)
  | pollWrite
  | writtenArm
  | inputArm (frame : Except String (Option ClientFrame)) (authorized : Bool)
  | finishSend
  -- the writer
  | sendAck
  | sendItem
  | frameWritten
  | writeFailed
  | writerDone

section Stream

variable {ω : Type*} (c : StreamConfig ω)

def StreamConfig.attachWriteId (sequence : ℕ) :
    String := "attach-" ++ c.streamId ++ "-" ++ toString sequence

namespace AttachStream

def initial : AttachStream ω where
  driver := .running
  nextInputSequence := 1
  pendingWrite := none
  task := none
  pendingOutputExit := none
  items := []
  acks := []
  ackSlots := c.ackBacklog
  writer := .idle
  leaseEpoch := c.expectedLeaseEpoch
  leaseChanged := false
  rootExit := false
  rootExitChanged := false
  inputs := []
  handed := []
  received := []
  sent := []

variable (s : AttachStream ω)

/-- `items.capacity() > 0`. -/
def room : Bool := s.items.length < c.outputQueueEvents

/-- The driver failed: the writer is dropped where it is. -/
def abort : AttachStream ω := { s with driver := .ended, writer := .ended }

def finish (item : StreamItem ω) : AttachStream ω := { s with driver := .finishing item }

def queue (event : ω) (authorized : Bool) : AttachStream ω :=
  if authorized then { s with items := s.items ++ [.event event] } else s.abort

def onOutput (event : Option ω) (authorized : Bool) : AttachStream ω :=
  match event with
  | none => { s with driver := .ended }
  | some event =>
    if c.isExit event && !s.rootExit then
      { s with received := s.received ++ [event], pendingOutputExit := some event }
    else { s with received := s.received ++ [event] }.queue event authorized

def onExit (event : ω) (authorized : Bool) : AttachStream ω :=
  if s.rootExit = false then { s with rootExitChanged := false }
  else if s.leaseEpoch ≠ c.expectedLeaseEpoch then
    { s with rootExitChanged := false, pendingOutputExit := none, driver := .ended }
  else { s with rootExitChanged := false, pendingOutputExit := none }.queue event authorized

/-- The write is accepted: its acknowledgement takes a slot. -/
def acknowledge (w : PendingAttachWrite) : AttachStream ω :=
  { s with
    pendingWrite := none
    task := none
    ackSlots := s.ackSlots - 1
    acks := s.acks ++ [⟨w.writeId, w.bytesWritten⟩] }

def onWritten (w : PendingAttachWrite) (result : Except ControlError Unit) : AttachStream ω :=
  match result with
  | .error error => { s with pendingWrite := none, task := none }.finish (.error (.write error))
  | .ok () =>
    if s.ackSlots = 0 then { s with pendingWrite := none, task := none }.finish (.error .ackBacklog)
    else if s.nextInputSequence + 1 < 2 ^ 64 then
      { s.acknowledge w with nextInputSequence := s.nextInputSequence + 1 }
    else (s.acknowledge w).finish (.error .sequenceExhausted)

/-- What is wrong with a client frame. -/
def faultOf (frame : ClientFrame) : Option StreamFault :=
  if c.mode ≠ .attach then some .clientFrame
  else if frame.input = none then some .notInput
  else if frame.workerInstanceId ≠ c.workerInstanceId ∨ frame.streamId ≠ c.streamId then
    some .identity
  else if frame.input ≠ some (c.attachWriteId s.nextInputSequence) then some .writeId
  else none

def onInput (frame : Except String (Option ClientFrame)) (authorized : Bool) : AttachStream ω :=
  match frame with
  | .ok none => { s with driver := .ended }
  | .error message => s.finish (.error (.frame message))
  | .ok (some frame) =>
    if authorized = false then s.abort
    else
      match s.faultOf c frame with
      | some fault => s.finish (.error fault)
      | none =>
        { s with
          pendingWrite := some ⟨c.attachWriteId s.nextInputSequence, frame.payload.length,
            c.deliver frame.payload⟩
          inputs := s.inputs ++ [frame] }

/-- The writer once its frame is out. -/
def afterFrame : Sent ω → AttachStream ω
  | .ack _ => { s with writer := .idle, ackSlots := s.ackSlots + 1 }
  | .item (.event _) => { s with writer := .idle }
  | .item (.close _) | .item (.error _) => { s with writer := .ended, driver := .ended }

def step : StreamEvent ω → Option (AttachStream ω)
  | .lease epoch => some { s with leaseEpoch := epoch, leaseChanged := true }
  | .exited => some { s with rootExit := true, rootExitChanged := true }
  | .ptyAccepts n =>
    match s.task with
    | some ⟨bytes, accepted, none⟩ =>
      if accepted + n ≤ bytes.length then
        some { s with task := some ⟨bytes, accepted + n, none⟩, handed := s.handed ++
          (bytes.drop accepted).take n }
      else none
    | _ => none
  | .ptyDone =>
    match s.task with
    | some ⟨bytes, accepted, none⟩ =>
      if accepted = bytes.length then some { s with task := some ⟨bytes, accepted, some (.ok ())⟩ }
        else none
    | _ => none
  | .ptyFails error =>
    match s.task with
    | some ⟨bytes, accepted, none⟩ => some { s with task := some ⟨bytes, accepted, some (.error error)⟩ }
    | _ => none
  | .leaseArm =>
    if s.driver.isRunning && s.leaseChanged then some (s.finish (.close .leaseReleased)) else none
  | .exitArm authorized =>
    match s.pendingOutputExit with
    | some event =>
      if s.driver.isRunning && s.room c && s.rootExitChanged then some (s.onExit c event authorized)
        else none
    | none => none
  | .exitLost =>
    if s.driver.isRunning && s.pendingOutputExit.isSome && s.room c then some s.abort else none
  | .outputArm event authorized =>
    if s.driver.isRunning && s.pendingOutputExit.isNone && s.room c then
      some (s.onOutput c event authorized)
    else none
  | .pollWrite =>
    match s.pendingWrite, s.task with
    | some w, none =>
      if s.driver.isRunning then some { s with task := some ⟨w.bytes, 0, none⟩ } else none
    | _, _ => none
  | .writtenArm =>
    match s.pendingWrite, s.task with
    | some w, some ⟨_, _, some result⟩ =>
      if s.driver.isRunning then some (s.onWritten w result) else none
    | _, _ => none
  | .inputArm frame authorized =>
    if s.driver.isRunning && s.pendingWrite.isNone && decide (0 < s.ackSlots) then
      some (s.onInput c frame authorized)
    else none
  | .finishSend =>
    match s.driver with
    | .finishing item => if s.room c then
      some { s with items := s.items ++ [item], driver := .ended } else none
    | _ => none
  | .sendAck =>
    match s.writer, s.acks with
    | .idle, ack :: acks => some { s with
      writer := .writing (.ack ack), acks := acks, sent := s.sent ++ [.ack ack] }
    | _, _ => none
  | .sendItem =>
    match s.writer, s.acks, s.items with
    | .idle, [], item :: items =>
      some { s with writer := .writing (.item item), items := items, sent := s.sent ++ [.item item] }
    | _, _, _ => none
  | .frameWritten =>
    match s.writer with
    | .writing sent => some (s.afterFrame sent)
    | _ => none
  | .writeFailed =>
    match s.writer with
    | .writing _ => some s.abort
    | _ => none
  | .writerDone =>
    match s.writer, s.driver, s.acks, s.items with
    | .idle, .ended, [], [] => some { s with writer := .ended }
    | _, _, _, _ => none

def Step (e : StreamEvent ω) (t : AttachStream ω) : Prop := s.step c e = some t

/-- What a step can do, with the guard it passed. -/
inductive Stepped (s : AttachStream ω) : StreamEvent ω → AttachStream ω → Prop
  | lease (epoch : ℕ) : Stepped s (.lease epoch) { s with leaseEpoch := epoch, leaseChanged := true }
  | exited : Stepped s .exited { s with rootExit := true, rootExitChanged := true }
  | ptyAccepts (n : ℕ) (bytes : List UInt8) (accepted : ℕ)
      (htask : s.task = some ⟨bytes, accepted, none⟩) :
      Stepped s (.ptyAccepts n)
        { s with task := some ⟨bytes, accepted + n, none⟩, handed := s.handed ++
          (bytes.drop accepted).take n }
  | ptyEnds (e : StreamEvent ω) (bytes : List UInt8) (accepted : ℕ) (result : Except ControlError Unit)
      (htask : s.task = some ⟨bytes, accepted, none⟩)
        (hdone : result = .ok () → accepted = bytes.length) :
      Stepped s e { s with task := some ⟨bytes, accepted, some result⟩ }
  | leaseArm (hrunning : s.driver.isRunning) (hlease : s.leaseChanged) :
      Stepped s .leaseArm (s.finish (.close .leaseReleased))
  | exitArm (authorized : Bool) (event : ω) (hrunning : s.driver.isRunning)
      (hexit : s.pendingOutputExit = some event) : Stepped s (.exitArm authorized)
        (s.onExit c event authorized)
  | outputArm (event : Option ω) (authorized : Bool) (hrunning : s.driver.isRunning)
      (hexit : s.pendingOutputExit = none) : Stepped s (.outputArm event authorized)
        (s.onOutput c event authorized)
  | pollWrite (w : PendingAttachWrite) (hrunning : s.driver.isRunning)
      (hpending : s.pendingWrite = some w)
      (htask : s.task = none) : Stepped s .pollWrite { s with task := some ⟨w.bytes, 0, none⟩ }
  | writtenArm (w : PendingAttachWrite) (task : WriteTask) (result : Except ControlError Unit)
      (hrunning : s.driver.isRunning) (hpending : s.pendingWrite = some w) (htask : s.task = some task)
      (hresult : task.result = some result) : Stepped s .writtenArm (s.onWritten w result)
  | inputArm (frame : Except String (Option ClientFrame)) (authorized : Bool)
      (hrunning : s.driver.isRunning) (hpending : s.pendingWrite = none) (hslots : 0 < s.ackSlots) :
      Stepped s (.inputArm frame authorized) (s.onInput c frame authorized)
  | finishSend (item : StreamItem ω) (hdriver : s.driver = .finishing item) :
      Stepped s .finishSend { s with items := s.items ++ [item], driver := .ended }
  | sendAck (ack : StreamAck) (acks : List StreamAck) (hwriter : s.writer = .idle)
      (hacks : s.acks = ack :: acks) :
      Stepped s .sendAck { s with
        writer := .writing (.ack ack), acks := acks, sent := s.sent ++ [.ack ack] }
  | sendItem (item : StreamItem ω) (items : List (StreamItem ω))
      (hwriter : s.writer = .idle) (hacks : s.acks = [])
      (hitems : s.items = item :: items) :
      Stepped s .sendItem { s with
        writer := .writing (.item item), items := items, sent := s.sent ++ [.item item] }
  | frameWritten (sent : Sent ω) (hwriter : s.writer = .writing sent) :
      Stepped s .frameWritten (s.afterFrame sent)
  | aborted (e : StreamEvent ω) : Stepped s e s.abort
  | writerDone (hdriver : s.driver = .ended) : Stepped s .writerDone { s with writer := .ended }

variable {e : StreamEvent ω}

theorem Step.cases {c : StreamConfig ω} {s t : AttachStream ω} (h : s.Step c e t) : Stepped c s e t := by
  revert h
  unfold Step
  -- one case for each branch of `step` that goes on
  fun_cases step c s e <;> rintro ⟨⟩
  · exact .lease _
  · exact .exited
  next htask _ => exact .ptyAccepts _ _ _ htask
  next htask => exact .ptyEnds _ _ _ _ htask fun _ => rfl
  next htask => exact .ptyEnds _ _ _ _ htask nofun
  next hguard =>
    rw [and_eq_true] at hguard
    exact .leaseArm hguard.1 hguard.2
  next hexit hguard =>
    rw [and_eq_true, and_eq_true] at hguard
    exact .exitArm _ _ hguard.1.1 hexit
  · exact .aborted _
  next hguard =>
    rw [and_eq_true, and_eq_true, Option.isNone_iff_eq_none] at hguard
    exact .outputArm _ _ hguard.1.1 hguard.1.2
  next htask hpending hrunning => exact .pollWrite _ hrunning hpending htask
  next htask hpending hrunning => exact .writtenArm _ _ _ hrunning hpending htask rfl
  next hguard =>
    rw [and_eq_true, and_eq_true, Option.isNone_iff_eq_none, decide_eq_true_eq] at hguard
    exact .inputArm _ _ hguard.1.1 hguard.1.2 hguard.2
  next hdriver _ => exact .finishSend _ hdriver
  next hacks hwriter => exact .sendAck _ _ hwriter hacks
  next hitems hacks hwriter => exact .sendItem _ _ hwriter hacks hitems
  next hwriter => exact .frameWritten _ hwriter
  · exact .aborted _
  next _ _ hdriver _ => exact .writerDone hdriver

/-! ### Accepted input -/

def ackOf (f : ClientFrame) : StreamAck := ⟨f.input.getD "", f.payload.length⟩

/-- The bytes of input frames, as the PTY is to get them. -/
def delivered (frames : List ClientFrame) :
    List UInt8 := frames.flatMap fun f => c.deliver f.payload

def sentAcks (sent : List (Sent ω)) : List StreamAck :=
  sent.filterMap fun
    | .ack ack => some ack
    | .item _ => none

def sentItems (sent : List (Sent ω)) : List (StreamItem ω) :=
  sent.filterMap fun
    | .ack _ => none
    | .item item => some item

def eventsOf (items : List (StreamItem ω)) : List ω :=
  items.filterMap fun
    | .event event => some event
    | _ => none

@[simp] theorem sentAcks_ack (sent : List (Sent ω)) (a : StreamAck) :
    sentAcks (sent ++ [.ack a]) = sentAcks sent ++ [a] := by
  simp [sentAcks]

@[simp] theorem sentAcks_item (sent : List (Sent ω)) (i : StreamItem ω) :
    sentAcks (sent ++ [.item i]) = sentAcks sent := by
  simp [sentAcks]

@[simp] theorem sentItems_ack (sent : List (Sent ω)) (a : StreamAck) :
    sentItems (sent ++ [.ack a]) = sentItems sent := by
  simp [sentItems]

@[simp] theorem sentItems_item (sent : List (Sent ω)) (i : StreamItem ω) :
    sentItems (sent ++ [.item i]) = sentItems sent ++ [i] := by
  simp [sentItems]

@[simp] theorem eventsOf_append (a b : List (StreamItem ω)) :
    eventsOf (a ++ b) = eventsOf a ++ eventsOf b :=
  filterMap_append

theorem delivered_append (a b : List ClientFrame) :
    delivered c (a ++ b) = delivered c a ++ delivered c b :=
  flatMap_append

/-- The pending write is of this frame. -/
structure WriteOf (w : PendingAttachWrite) (f : ClientFrame) : Prop where
  ack : (⟨w.writeId, w.bytesWritten⟩ : StreamAck) = ackOf f
  bytes : w.bytes = c.deliver f.payload

/-- How far the input is: every frame handed over; the last one not started;
or a task at work on the last one. -/
inductive Progress (s : AttachStream ω) : Prop
  | settled (hpending : s.pendingWrite = none) (htask : s.task = none)
      (hall : s.driver.isRunning → s.handed = delivered c s.inputs)
      (hpart : s.handed <+: delivered c s.inputs)
  | waiting (w : PendingAttachWrite) (front : List ClientFrame) (f : ClientFrame)
      (hpending : s.pendingWrite = some w)
      (htask : s.task = none) (hinputs : s.inputs = front ++ [f]) (hof : WriteOf c w f)
      (hhanded : s.handed = delivered c front)
  | writing (w : PendingAttachWrite) (front : List ClientFrame) (f : ClientFrame) (task : WriteTask)
      (hpending : s.pendingWrite = some w) (htask : s.task = some task)
      (hinputs : s.inputs = front ++ [f])
      (hof : WriteOf c w f) (hbytes : task.bytes = c.deliver f.payload)
      (hhanded : s.handed = delivered c front ++ task.bytes.take task.accepted)
      (hdone : task.result = some (.ok ()) → task.accepted = task.bytes.length)

/-- The frames that are acknowledged or about to be: the first `k`. -/
structure Acked (s : AttachStream ω) (k : ℕ) : Prop where
  acks : sentAcks s.sent ++ s.acks = (s.inputs.take k).map ackOf
  handed : delivered c (s.inputs.take k) <+: s.handed
  bound : k ≤ s.inputs.length
  running : s.driver.isRunning → k + s.pendingWrite.toList.length = s.inputs.length

structure InputOrder (s : AttachStream ω) : Prop where
  ids : ∀ k f, s.inputs[k]? = some f → f.input = some (c.attachWriteId (k + 1))
  next : s.driver.isRunning → s.nextInputSequence + s.pendingWrite.toList.length =
    s.inputs.length + 1
  progress : Progress c s
  acked : ∃ k, Acked c s k

section InputLemmas

variable {c} {s t : AttachStream ω}

/-- Of the state, the input side reads these parts only. -/
theorem InputOrder.congr (h : InputOrder c s)
    (hdriver : t.driver.isRunning → s.driver.isRunning := by first | exact id | nofun)
    (hsame : (t.nextInputSequence, t.pendingWrite, t.task, t.inputs, t.handed) =
      (s.nextInputSequence, s.pendingWrite, s.task, s.inputs, s.handed) := by rfl)
    (hacks : sentAcks t.sent ++ t.acks = sentAcks s.sent ++ s.acks := by first | rfl | simp [*]) :
    InputOrder c t := by
  simp only [Prod.mk.injEq] at hsame
  obtain ⟨hnext, hpending, htask, hinputs, hhanded⟩ := hsame
  refine ⟨hinputs ▸ h.ids, fun hrunning => ?_, ?_, ?_⟩
  · rw [hnext, hpending, hinputs]
    exact h.next (hdriver hrunning)
  · cases h.progress with
    | settled h1 h2 h3 h4 =>
      exact .settled (hpending.trans h1) (htask.trans h2)
        (fun hrunning => by rw [hhanded, hinputs]; exact h3 (hdriver hrunning))
        (by rw [hhanded, hinputs]; exact h4)
    | waiting w front f h1 h2 h3 h4 h5 =>
      exact .waiting w front f (hpending.trans h1) (htask.trans h2) (hinputs.trans h3) h4
        (hhanded.trans h5)
    | writing w front f task h1 h2 h3 h4 h5 h6 h7 =>
      exact .writing w front f task (hpending.trans h1) (htask.trans h2) (hinputs.trans h3) h4 h5
        (hhanded.trans h6) h7
  · obtain ⟨k, h1, h2, h3, h4⟩ := h.acked
    refine ⟨k, ?_, ?_, ?_, fun hrunning => ?_⟩
    · rw [hacks, hinputs, h1]
    · rw [hinputs, hhanded]; exact h2
    · rw [hinputs]; exact h3
    · rw [hinputs, hpending]; exact h4 (hdriver hrunning)

theorem InputOrder.initial : InputOrder c (initial c) where
  ids k f h := by simp [AttachStream.initial] at h
  next _ := rfl
  progress := .settled rfl rfl (fun _ => rfl) (prefix_refl _)
  acked := ⟨0, rfl, prefix_refl _, Nat.zero_le _, fun _ => rfl⟩

variable {f : ClientFrame}

section

variable (h : InputOrder c s)
include h

/-- A new input frame, with the next id. -/
theorem InputOrder.accept (hrunning : s.driver.isRunning) (hpending : s.pendingWrite = none)
    (hid : f.input = some (c.attachWriteId s.nextInputSequence)) :
    InputOrder c { s with
      pendingWrite := some ⟨c.attachWriteId s.nextInputSequence, f.payload.length,
        c.deliver f.payload⟩
      inputs := s.inputs ++ [f] } := by
  have hnext := h.next hrunning
  rw [hpending] at hnext
  have hlength : s.nextInputSequence = s.inputs.length + 1 := hnext
  have hsettled : s.task = none ∧ s.handed = delivered c s.inputs := by
    cases h.progress with
    | settled _ h2 h3 _ => exact ⟨h2, h3 hrunning⟩
    | waiting w _ _ h1 => rw [hpending] at h1; cases h1
    | writing w _ _ _ h1 => rw [hpending] at h1; cases h1
  refine ⟨fun k f' hk => ?_, fun _ => ?_, ?_, ?_⟩
  · rw [getElem?_append] at hk
    split at hk
    · exact h.ids k f' hk
    · have hk' : k = s.inputs.length := by
        have hlt := (List.getElem?_eq_some_iff.mp hk).1
        simp at hlt
        omega
      rw [hk'] at hk
      simp only [Nat.sub_self, getElem?_cons_zero, Option.some.injEq] at hk
      rw [← hk, hid, hlength, hk']
  · simp [hlength]
  · exact .waiting _ s.inputs f rfl hsettled.1 rfl ⟨by simp [ackOf, hid], rfl⟩ hsettled.2
  · obtain ⟨k, h1, h2, h3, h4⟩ := h.acked
    have hk : k = s.inputs.length := by
      have := h4 hrunning
      rwa [hpending] at this
    have htake : (s.inputs ++ [f]).take k = s.inputs.take k := take_append_of_le_length h3
    refine ⟨k, ?_, ?_, ?_, fun _ => ?_⟩
    · rw [htake]; exact h1
    · rw [htake]; exact h2
    · simp only [length_append]; omega
    · simp [hk]

variable {w : PendingAttachWrite} {task : WriteTask}

theorem InputOrder.write_done (hrunning : s.driver.isRunning)
    (hpending : s.pendingWrite = some w) (htask : s.task = some task)
    (hresult : task.result = some (.ok ())) (driver : Driver ω) (n : ℕ)
    (hn : driver.isRunning → n = s.nextInputSequence + 1) :
    InputOrder c { s.acknowledge w with driver := driver, nextInputSequence := n } := by
  cases h.progress with
  | settled h1 => rw [hpending] at h1; cases h1
  | waiting _ _ _ _ h2 => rw [htask] at h2; cases h2
  | writing w' front f task' h1 h2 h3 h4 h5 h6 h7 =>
    obtain rfl : w = w' := Option.some.inj (hpending.symm.trans h1)
    obtain rfl : task = task' := Option.some.inj (htask.symm.trans h2)
    have hall : s.handed = delivered c s.inputs := by
      rw [h6, h7 hresult, take_length, h5, h3, delivered_append]
      simp [delivered]
    have hnext := h.next hrunning
    rw [hpending] at hnext
    obtain ⟨k, hacks, hhanded, hbound, hk⟩ := h.acked
    have hk' : k + 1 = s.inputs.length := by
      have := hk hrunning
      rwa [hpending] at this
    have hfront : front.length = k := by
      rw [h3, length_append] at hk'
      exact (Nat.succ.inj hk').symm
    refine ⟨h.ids, fun hdriver => ?_, .settled rfl rfl (fun _ => hall) (hall ▸ prefix_refl _),
      k + 1, ?_, ?_, ?_, ?_⟩
    · rw [hn hdriver]
      exact congrArg (· + 1) (Nat.succ.inj hnext)
    · show sentAcks s.sent ++ (s.acks ++ [⟨w.writeId, w.bytesWritten⟩]) =
        (s.inputs.take (k + 1)).map ackOf
      rw [← append_assoc, hacks, hk', take_length, h4.ack]
      rw [h3, take_append_of_le_length hfront.ge, take_of_length_le hfront.le, map_append]
      rfl
    · show delivered c (s.inputs.take (k + 1)) <+: s.handed
      rw [hk', take_length, hall]
    · exact hk'.le
    · intro _
      exact hk'

theorem InputOrder.handed_part : s.handed <+: delivered c s.inputs := by
  cases h.progress with
  | settled _ _ _ h4 => exact h4
  | waiting w front f _ _ h3 _ h5 =>
    rw [h5, h3, delivered_append]
    exact prefix_append _ _
  | writing w front f task _ _ h3 _ h5 h6 _ =>
    rw [h6, h3, delivered_append, h5]
    refine (prefix_append_right_inj _).mpr ?_
    simpa [delivered] using take_prefix task.accepted (c.deliver f.payload)

theorem InputOrder.write_failed (item : StreamItem ω) :
    InputOrder c ({ s with pendingWrite := none, task := none }.finish item) := by
  obtain ⟨k, hacks, hhanded, hbound, -⟩ := h.acked
  exact ⟨h.ids, fun hrunning => (nomatch hrunning),
    .settled rfl rfl (fun hrunning => (nomatch hrunning)) h.handed_part, k,
    hacks, hhanded, hbound, fun hrunning => (nomatch hrunning)⟩

theorem InputOrder.write_started (hpending : s.pendingWrite = some w)
    (htask : s.task = none) : InputOrder c { s with task := some ⟨w.bytes, 0, none⟩ } := by
  refine ⟨h.ids, h.next, ?_, ?_⟩
  · cases h.progress with
    | settled h1 => rw [hpending] at h1; cases h1
    | waiting w' front f h1 h2 h3 h4 h5 =>
      obtain rfl : w = w' := Option.some.inj (hpending.symm.trans h1)
      exact .writing w front f _ hpending rfl h3 h4 h4.bytes (h5.trans (append_nil _).symm) nofun
    | writing _ _ _ _ _ h2 => rw [htask] at h2; cases h2
  · obtain ⟨k, h1, h2, h3, h4⟩ := h.acked
    exact ⟨k, h1, h2, h3, h4⟩

/-- The task moves on: it hands over more bytes, or ends. -/
theorem InputOrder.write_moves (task' : WriteTask) (htask : s.task = some task)
    (hbytes : task'.bytes = task.bytes) {n : ℕ} (haccepted : task'.accepted = task.accepted + n)
    (hdone : task'.result = some (.ok ()) → task'.accepted = task'.bytes.length) :
    InputOrder c { s with
      task := some task', handed := s.handed ++ (task.bytes.drop task.accepted).take n } := by
  refine ⟨h.ids, h.next, ?_, ?_⟩
  · cases h.progress with
    | settled _ h2 => rw [htask] at h2; cases h2
    | waiting _ _ _ _ h2 => rw [htask] at h2; cases h2
    | writing w front f task₀ h1 h2 h3 h4 h5 h6 h7 =>
      obtain rfl : task = task₀ := Option.some.inj (htask.symm.trans h2)
      refine .writing w front f task' h1 rfl h3 h4 (hbytes.trans h5) ?_ hdone
      rw [h6, hbytes, haccepted, append_assoc, take_add]
  · obtain ⟨k, h1, h2, h3, h4⟩ := h.acked
    exact ⟨k, h1, h2.trans (prefix_append _ _), h3, h4⟩

theorem InputOrder.onWritten (hrunning : s.driver.isRunning)
    (hpending : s.pendingWrite = some w) (htask : s.task = some task)
    {result : Except ControlError Unit} (hresult : task.result = some result) :
    InputOrder c (s.onWritten w result) := by
  fun_cases AttachStream.onWritten s w result
  · exact h.write_failed _
  · exact h.write_failed _
  · exact h.write_done hrunning hpending htask hresult s.driver _ fun _ => rfl
  · exact h.write_done hrunning hpending htask hresult _ s.nextInputSequence fun hrunning =>
      (nomatch hrunning)

end

theorem faultOf_none (h : s.faultOf c f = none) :
    f.input = some (c.attachWriteId s.nextInputSequence) := by
  revert h
  fun_cases faultOf c s f <;> rintro ⟨⟩
  next hid => exact not_not.mp hid

theorem faultOf_ne_ackBacklog (h : s.faultOf c f = some .ackBacklog) : False := by
  revert h
  fun_cases faultOf c s f <;> rintro ⟨⟩

section

variable (h : InputOrder c s)
include h

theorem InputOrder.onInput (hrunning : s.driver.isRunning) (hpending : s.pendingWrite = none)
    (frame : Except String (Option ClientFrame)) (authorized : Bool) :
    InputOrder c (s.onInput c frame authorized) := by
  fun_cases AttachStream.onInput c s frame authorized with
  | case5 _ _ hfault => exact h.accept hrunning hpending (faultOf_none hfault)
  | _ => exact h.congr

theorem InputOrder.step (hstep : s.Step c e t) : InputOrder c t := by
  cases hstep.cases with
  | ptyAccepts n bytes accepted htask =>
    exact h.write_moves ⟨bytes, accepted + n, none⟩ htask rfl rfl nofun
  | ptyEnds _ bytes accepted result htask hdone =>
    have hmoved := h.write_moves (n := 0) ⟨bytes, accepted, some result⟩ htask rfl rfl
      fun hok => hdone (Option.some.inj hok)
    simpa using hmoved
  | exitArm authorized event =>
    unfold AttachStream.onExit AttachStream.queue
    repeat' split
    all_goals exact h.congr
  | outputArm event authorized =>
    unfold AttachStream.onOutput AttachStream.queue
    repeat' split
    all_goals exact h.congr
  | pollWrite w hrunning hpending htask => exact h.write_started hpending htask
  | writtenArm w task result hrunning hpending htask hresult =>
    exact h.onWritten hrunning hpending htask hresult
  | inputArm frame authorized hrunning hpending hslots =>
    exact h.onInput hrunning hpending frame authorized
  | frameWritten sent hwriter => cases sent with
    | ack => exact h.congr
    | item item => cases item <;> exact h.congr
  | _ => exact h.congr

end

end InputLemmas

/-! ### Output -/

/-- The items queued so far, sent or not. -/
def queued : List (StreamItem ω) := sentItems s.sent ++ s.items

/-- The events queued are those received but the last ones: one that waits for
the root's exit, and what the driver dropped when it ended. -/
structure OutputOrder (s : AttachStream ω) : Prop where
  events : ∃ lost, s.received = eventsOf s.queued ++ s.pendingOutputExit.toList ++ lost ∧
    (s.driver.isRunning → lost = [])
  exits : ∀ e ∈ eventsOf s.queued, c.isExit e → s.rootExit

section OutputLemmas

variable {c} {s t : AttachStream ω}

theorem OutputOrder.congr (h : OutputOrder c s)
    (hdriver : t.driver.isRunning → s.driver.isRunning := by first | exact id | nofun)
    (hqueued : t.queued = s.queued := by first | rfl | simp [queued, *])
    (hsame : (t.received, t.pendingOutputExit) = (s.received, s.pendingOutputExit) := by rfl)
    (hroot : s.rootExit → t.rootExit := by first | exact id | exact fun _ => rfl) :
    OutputOrder c t where
  events := by
    obtain ⟨lost, hlost, hnone⟩ := h.events
    obtain ⟨hreceived, hexit⟩ := Prod.mk.inj hsame
    exact ⟨lost, by rw [hreceived, hqueued, hexit, hlost], fun hrunning => hnone (hdriver hrunning)⟩
  exits e he hisExit := hroot (h.exits e (hqueued ▸ he) hisExit)

/-- A last item is no event. -/
theorem OutputOrder.last (h : OutputOrder c s) {item : StreamItem ω}
    (hitem : eventsOf [item] = []) :
    OutputOrder c { s with items := s.items ++ [item], driver := .ended } := by
  have hevents : eventsOf
    ({ s with items := s.items ++ [item], driver := .ended } : AttachStream ω).queued =
      eventsOf s.queued := by
    show eventsOf (sentItems s.sent ++ (s.items ++ [item])) = _
    rw [← append_assoc, eventsOf_append, hitem, append_nil]
    rfl
  obtain ⟨lost, hlost, -⟩ := h.events
  refine ⟨⟨lost, by rw [hevents]; exact hlost, fun hrunning => (nomatch hrunning)⟩, fun e he => ?_⟩
  rw [hevents] at he
  exact h.exits e he

/-- The next event is queued, or dropped with the stream. -/
theorem queue_order {event : ω} {authorized : Bool}
    (hevents : s.received = eventsOf s.queued ++ [event]) (hexit : s.pendingOutputExit = none)
    (hexits : ∀ e ∈ eventsOf s.queued, c.isExit e → s.rootExit)
    (hevent : c.isExit event → s.rootExit) : OutputOrder c (s.queue event authorized) := by
  unfold AttachStream.queue
  split
  · have hqueued : eventsOf
      ({ s with items := s.items ++ [.event event] } : AttachStream ω).queued =
        eventsOf s.queued ++ [event] := by
      show eventsOf (sentItems s.sent ++ (s.items ++ [.event event])) = _
      rw [← append_assoc, eventsOf_append]
      rfl
    refine ⟨⟨[], ?_, fun _ => rfl⟩, fun e he => ?_⟩
    · rw [hqueued]
      rw [hexit, hevents]
      simp
    · rw [hqueued] at he
      exact List.forall_mem_snoc hexits hevent e he
  · refine ⟨⟨[event], ?_, fun hrunning => (nomatch hrunning)⟩, hexits⟩
    show s.received = eventsOf s.queued ++ s.pendingOutputExit.toList ++ [event]
    rw [hexit, hevents]
    simp

theorem OutputOrder.onOutput (h : OutputOrder c s) (hrunning : s.driver.isRunning)
    (hexit : s.pendingOutputExit = none) (event : Option ω) (authorized : Bool) :
    OutputOrder c (s.onOutput c event authorized) := by
  obtain ⟨lost, hlost, hnone⟩ := h.events
  rw [hnone hrunning, hexit] at hlost
  have hreceived : s.received = eventsOf s.queued := by simpa using hlost
  fun_cases AttachStream.onOutput c s event authorized with
  | case1 => exact h.congr
  | case2 event =>
    refine ⟨⟨[], ?_, fun _ => rfl⟩, h.exits⟩
    show s.received ++ [event] = eventsOf s.queued ++ [event] ++ []
    rw [hreceived, append_nil]
  | case3 event hheld =>
    refine queue_order (by rw [hreceived]; rfl) hexit h.exits fun hisExit => ?_
    rw [hisExit, Bool.true_and, Bool.not_eq_true', Bool.not_eq_false] at hheld
    exact hheld

theorem OutputOrder.onExit (h : OutputOrder c s) (hrunning : s.driver.isRunning) {event : ω}
    (hexit : s.pendingOutputExit = some event) (authorized : Bool) :
    OutputOrder c (s.onExit c event authorized) := by
  obtain ⟨lost, hlost, hnone⟩ := h.events
  rw [hnone hrunning, hexit] at hlost
  have hreceived : s.received = eventsOf s.queued ++ [event] := by simpa using hlost
  fun_cases AttachStream.onExit c s event authorized with
  | case1 => exact h.congr
  | case2 =>
    refine ⟨⟨[event], ?_, fun hrunning => (nomatch hrunning)⟩, h.exits⟩
    show s.received = eventsOf s.queued ++ [] ++ [event]
    rw [hreceived, append_nil]
  | case3 hroot => exact queue_order hreceived rfl h.exits fun _ => not_eq_false _ ▸ hroot

theorem OutputOrder.step (h : OutputOrder c s) (hstep : s.Step c e t)
    (hfinishing : ∀ i, s.driver = .finishing i → eventsOf [i] = []) : OutputOrder c t := by
  cases hstep.cases with
  | exitArm authorized event hrunning hexit => exact h.onExit hrunning hexit authorized
  | outputArm event authorized hrunning hexit => exact h.onOutput hrunning hexit event authorized
  | writtenArm w task result => fun_cases AttachStream.onWritten s w result <;> exact h.congr
  | inputArm frame authorized => fun_cases AttachStream.onInput c s frame authorized <;> exact h.congr
  | finishSend item hdriver => exact h.last (hfinishing item hdriver)
  | frameWritten sent hwriter => cases sent with
    | ack => exact h.congr
    | item item => cases item <;> exact h.congr
  | _ => exact h.congr

end OutputLemmas

/-! ### The acknowledgement slots -/

/-- A last item that may be queued: no event, and not the backlog's error. -/
def StreamItem.Ending (i : StreamItem ω) : Prop := eventsOf [i] = [] ∧ i ≠ .error .ackBacklog

/-- A pending write has its slot, so the backlog is never exceeded. -/
structure Backlog (s : AttachStream ω) : Prop where
  slot : s.driver.isRunning → s.pendingWrite.isSome → 0 < s.ackSlots
  queued : .error .ackBacklog ∉ s.queued
  finishing : ∀ i, s.driver = .finishing i → StreamItem.Ending i

section BacklogLemmas

variable {c} {s t : AttachStream ω}

section

variable (h : Backlog s)
include h

theorem Backlog.congr
    (hfinishing : ∀ i, t.driver = .finishing i → s.driver = .finishing i ∨ StreamItem.Ending i := by
      first | exact fun _ => .inl | nofun)
    (hdriver : t.driver.isRunning → s.driver.isRunning := by first | exact id | nofun)
    (hpending : t.pendingWrite = s.pendingWrite := by rfl)
    (hslots : s.ackSlots ≤ t.ackSlots := by first | exact le_rfl | exact Nat.le_succ _)
    (hqueued : t.queued = s.queued := by first | rfl | simp [AttachStream.queued, *]) :
    Backlog t where
  slot hrunning hsome := (h.slot (hdriver hrunning) (hpending ▸ hsome)).trans_le hslots
  queued := hqueued ▸ h.queued
  finishing i hi := (hfinishing i hi).elim (h.finishing i) id

theorem Backlog.finish {item : StreamItem ω} (hitem : StreamItem.Ending item) :
    Backlog (s.finish item) :=
  h.congr fun _ hi => by cases hi; exact .inr hitem

theorem Backlog.push {item : StreamItem ω} (hitem : item ≠ .error .ackBacklog) (driver : Driver ω)
    (hdriver : driver = s.driver ∨ driver = .ended) :
    Backlog { s with items := s.items ++ [item], driver := driver } where
  slot hrunning hsome := by
    rcases hdriver with rfl | rfl
    · exact h.slot hrunning hsome
    · cases hrunning
  queued hmem := by
    have hmem' : .error .ackBacklog ∈ sentItems s.sent ++ (s.items ++ [item]) := hmem
    rw [← append_assoc] at hmem'
    rcases mem_append.mp hmem' with hmem' | hmem'
    · exact h.queued hmem'
    · exact hitem (mem_singleton.mp hmem').symm
  finishing i hi := by
    rcases hdriver with rfl | rfl
    · exact h.finishing i hi
    · cases hi

theorem Backlog.queue (event : ω) (authorized : Bool) : Backlog (s.queue event authorized) := by
  unfold AttachStream.queue
  split
  · exact h.push (by simp) s.driver (.inl rfl)
  · exact h.congr

theorem Backlog.step (hstep : s.Step c e t) : Backlog t := by
  cases hstep.cases with
  | leaseArm hrunning hlease => exact h.finish ⟨rfl, by simp⟩
  | exitArm authorized event => fun_cases AttachStream.onExit c s event authorized with
    | case3 => exact Backlog.queue h.congr event authorized
    | _ => exact h.congr
  | outputArm event authorized => fun_cases AttachStream.onOutput c s event authorized with
    | case3 event => exact Backlog.queue h.congr event authorized
    | _ => exact h.congr
  | writtenArm w task result hrunning hpending htask hresult =>
    have hslot : 0 < s.ackSlots := h.slot hrunning (by rw [hpending]; rfl)
    unfold AttachStream.onWritten
    split
    · exact ⟨fun hrunning => (nomatch hrunning), h.queued, fun i hi => by cases hi; exact ⟨rfl, by simp⟩⟩
    · -- the write's slot is free: the frame was read only then
      rw [if_neg hslot.ne']
      split
      · exact ⟨fun _ hsome => (nomatch hsome), h.queued, h.finishing⟩
      · exact ⟨fun hrunning => (nomatch hrunning), h.queued, fun i hi => by cases hi; exact ⟨rfl, by simp⟩⟩
  | inputArm frame authorized hrunning hpending hslots =>
    fun_cases AttachStream.onInput c s frame authorized with
    | case2 => exact h.finish ⟨rfl, by simp⟩
    | case4 _ _ fault hfault =>
      refine h.finish ⟨rfl, ?_⟩
      rintro ⟨⟩
      exact faultOf_ne_ackBacklog hfault
    | case5 => exact ⟨fun _ _ => hslots, h.queued, h.finishing⟩
    | _ => exact h.congr
  | finishSend item hdriver => exact h.push (h.finishing item hdriver).2 .ended (.inr rfl)
  | frameWritten sent hwriter => cases sent with
    | ack => exact h.congr
    | item item => cases item <;> exact h.congr
  | _ => exact h.congr

end

end BacklogLemmas

/-! ### The end of the stream -/

/-- The item is sent as a `Close` or an `Error` frame. -/
def closing : StreamItem ω → Bool
  | .event event => c.isExit event
  | .close _ | .error _ => true

def closes : Sent ω → Bool
  | .ack _ => false
  | .item item => closing c item

/-- An item that closes the stream is queued. -/
def closed : Bool := s.queued.any (closing c)

/-- The arm queues an event, an acknowledgement or a last frame. -/
def queues : StreamEvent ω → Bool
  | .leaseArm | .writtenArm | .inputArm (.error _) _ => true
  | .exitArm authorized => s.rootExit && s.leaseEpoch = c.expectedLeaseEpoch && authorized
  | .outputArm (some event) authorized => !(c.isExit event && !s.rootExit) && authorized
  | .inputArm (.ok (some frame)) authorized => authorized && (s.faultOf c frame).isSome
  | _ => false

/-- A step in which a driver that queued a closing item queues nothing else. -/
def CarefulStep (e : StreamEvent ω) (t : AttachStream ω) : Prop :=
  s.Step c e t ∧ (s.closed c → s.queues c e = false)

/-- Nothing comes after a closing item. -/
structure Ends (s : AttachStream ω) : Prop where
  last : ∀ front x rest, s.queued = front ++ x :: rest → closing c x → rest = []
  sentLast : ∀ front x rest, s.sent = front ++ x :: rest → closes c x → rest = []
  acks : ∀ x ∈ sentItems s.sent, closing c x → s.acks = []
  finishing : ∀ i, s.driver = .finishing i → s.closed c = false

section EndLemmas

variable {c} {s t : AttachStream ω}

theorem not_closing (h : s.closed c = false) {x : StreamItem ω} (hx : x ∈ s.queued) :
    closing c x = false := by
  rw [closed, any_eq_false] at h
  exact Bool.eq_false_iff.mpr (h x hx)

theorem Ends.congr (h : Ends c s)
    (hfinishing : ∀ i, t.driver = .finishing i → s.driver = .finishing i ∨ s.closed c = false := by
      first | exact fun _ => .inl | nofun)
    (hsame : (t.sent, t.items, t.acks) = (s.sent, s.items, s.acks) := by rfl) : Ends c t := by
  simp only [Prod.mk.injEq] at hsame
  obtain ⟨hsent, hitems, hacks⟩ := hsame
  have hqueued : t.queued = s.queued := by rw [queued, queued, hsent, hitems]
  refine ⟨?_, ?_, ?_, fun i hi => ?_⟩
  · rw [hqueued]; exact h.last
  · rw [hsent]; exact h.sentLast
  · rw [hsent, hacks]; exact h.acks
  · rw [closed, hqueued]; exact (hfinishing i hi).elim (h.finishing i) id

theorem append_singleton_last {α : Type*} {P : α → Bool} {l : List α}
    (hl : ∀ x ∈ l, P x = false) (a : α) :
    ∀ front x rest, l ++ [a] = front ++ x :: rest → P x → rest = [] := by
  intro front x rest heq hx
  rcases append_eq_append_iff.mp heq with ⟨more, hfront, hmore⟩ | ⟨more, hfront, hmore⟩
  · cases more with
    | nil =>
      simp only [nil_append, List.cons.injEq] at hmore
      exact hmore.2.symm
    | cons y ys => simp at hmore
  · cases more with
    | nil =>
      simp only [nil_append, List.cons.injEq] at hmore
      exact hmore.2
    | cons y ys =>
      obtain rfl : x = y := (List.cons.inj hmore).1
      have hmem : x ∈ l := hfront ▸ mem_append_right front mem_cons_self
      rw [hl x hmem] at hx
      cases hx

theorem closes_of_sentItems {sent : List (Sent ω)} (h : ∀ x ∈ sentItems sent, closing c x = false) :
    ∀ y ∈ sent, closes c y = false := by
  intro y hy
  cases y with
  | ack a => rfl
  | item i => exact h i (mem_filterMap.mpr ⟨_, hy, rfl⟩)

/-- An item is queued while none before it closes the stream. -/
theorem Ends.push (h : Ends c s) (hopen : s.closed c = false) (item : StreamItem ω)
    (driver : Driver ω) (hdriver : driver = s.driver ∧ s.driver.isRunning ∨ driver = .ended) :
    Ends c { s with items := s.items ++ [item], driver := driver } := by
  refine ⟨?_, h.sentLast, fun x hx hclosing => ?_, fun i hi => ?_⟩
  · show ∀ front x rest, sentItems s.sent ++ (s.items ++ [item]) = _ → _
    rw [← append_assoc]
    exact append_singleton_last (fun x hx => not_closing hopen hx) item
  · rw [not_closing hopen (mem_append_left _ hx)] at hclosing
    cases hclosing
  · have hi' : driver = .finishing i := hi
    rcases hdriver with ⟨rfl, hrunning⟩ | rfl
    · rw [hi'] at hrunning
      cases hrunning
    · cases hi'

theorem Ends.queue (h : Ends c s) (hrunning : s.driver.isRunning) (event : ω) {authorized : Bool}
    (hopen : authorized → s.closed c = false) : Ends c (s.queue event authorized) := by
  unfold AttachStream.queue
  split
  · exact h.push (hopen ‹_›) _ s.driver (.inl ⟨rfl, hrunning⟩)
  · exact h.congr

theorem Ends.step (h : Ends c s) (hstep : s.CarefulStep c e t) : Ends c t := by
  obtain ⟨hstep, hcareful⟩ := hstep
  have hopen : s.queues c e → s.closed c = false := by
    intro he
    by_contra hclosed
    rw [hcareful (not_eq_false _ ▸ hclosed)] at he
    cases he
  cases hstep.cases with
  | leaseArm hrunning hlease => exact h.congr fun _ _ => .inr (hopen rfl)
  | exitArm authorized event hrunning hexit => fun_cases AttachStream.onExit c s event authorized with
    | case3 hroot hepoch =>
      refine Ends.queue ?_ ?_ event fun hauthorized => hopen ?_
      · exact h.congr
      · exact hrunning
      · simp [queues, hauthorized, not_eq_false _ ▸ hroot, not_not.mp hepoch]
    | _ => exact h.congr
  | outputArm event authorized hrunning hexit => fun_cases AttachStream.onOutput c s event authorized with
    | case3 event hexit =>
      refine Ends.queue ?_ ?_ event fun hauthorized => hopen ?_
      · exact h.congr
      · exact hrunning
      · rw [queues, Bool.eq_false_of_not_eq_true hexit, hauthorized]
        rfl
    | _ => exact h.congr
  | writtenArm w task result hrunning hpending htask hresult =>
    have hnone : ∀ x ∈ sentItems s.sent, closing c x → s.acks ++ [⟨w.writeId, w.bytesWritten⟩] = [] := by
      intro x hx hclosing
      rw [not_closing (hopen rfl) (mem_append_left _ hx)] at hclosing
      cases hclosing
    fun_cases AttachStream.onWritten s w result
    · exact h.congr fun _ _ => .inr (hopen rfl)
    · exact h.congr fun _ _ => .inr (hopen rfl)
    · exact ⟨h.last, h.sentLast, hnone, h.finishing⟩
    · exact ⟨h.last, h.sentLast, hnone, fun _ _ => hopen rfl⟩
  | inputArm frame authorized => fun_cases AttachStream.onInput c s frame authorized with
    | case2 => exact h.congr fun _ _ => .inr (hopen rfl)
    | case4 frame hauthorized fault hfault =>
      refine h.congr fun _ _ => .inr (hopen ?_)
      simp [queues, not_eq_false _ ▸ hauthorized, hfault]
    | _ => exact h.congr
  | finishSend item hdriver => exact h.push (h.finishing item hdriver) item .ended (.inr rfl)
  | sendAck ack acks hwriter hacks =>
    -- an acknowledgement is left, so no closing item was sent
    have hnone : ∀ x ∈ sentItems s.sent, closing c x = false := by
      intro x hx
      by_contra hclosing
      rw [h.acks x hx (not_eq_false _ ▸ hclosing)] at hacks
      cases hacks
    refine ⟨?_, ?_, ?_, ?_⟩
    · simpa [AttachStream.queued] using h.last
    · exact append_singleton_last (closes_of_sentItems hnone) (.ack ack)
    · intro x hx hclosing
      rw [hnone x (by simpa using hx)] at hclosing
      cases hclosing
    · intro i hi
      have hclosed := h.finishing i hi
      simpa [closed, AttachStream.queued] using hclosed
  | sendItem item items hwriter hacks hitems =>
    -- nothing closing before the item, or the item would not be there
    have hnone : ∀ x ∈ sentItems s.sent, closing c x = false := by
      intro x hx
      by_contra hclosing
      obtain ⟨front, rest, heq⟩ := append_of_mem hx
      have hlast := h.last front x (rest ++ s.items) (by rw [AttachStream.queued, heq]; simp)
        (not_eq_false _ ▸ hclosing)
      rw [hitems] at hlast
      simp at hlast
    have hqueued : sentItems (s.sent ++ [.item item]) ++ items = s.queued := by
      rw [AttachStream.queued, hitems, sentItems_item]
      simp
    refine ⟨?_, ?_, fun _ _ _ => hacks, ?_⟩
    · show ∀ front x rest, sentItems (s.sent ++ [Sent.item item]) ++ items = _ → _
      rw [hqueued]
      exact h.last
    · exact append_singleton_last (closes_of_sentItems hnone) (.item item)
    · intro i hi
      show (sentItems (s.sent ++ [Sent.item item]) ++ items).any (closing c) = false
      rw [hqueued]
      exact h.finishing i hi
  | frameWritten sent hwriter => cases sent with
    | ack => exact h.congr
    | item item => cases item <;> exact h.congr
  | _ => exact h.congr

end EndLemmas

/-! ### Runs -/

section Order

variable {c} {s : AttachStream ω} {tr : List (StreamEvent ω)}

theorem inputOrder_of_run (h : Run (Step c) (initial c) tr s) : InputOrder c s :=
  h.invariant InputOrder.initial fun hs hstep => hs.step hstep

theorem backlog_of_run (h : Run (Step c) (initial c) tr s) : Backlog s :=
  h.invariant ⟨fun _ hsome => (nomatch hsome), not_mem_nil,
    fun _ hi => (nomatch hi)⟩ fun hs hstep => hs.step hstep

theorem outputOrder_of_run (h : Run (Step c) (initial c) tr s) : OutputOrder c s := by
  have hboth : OutputOrder c s ∧ Backlog s := by
    refine h.invariant ⟨⟨⟨[], rfl, fun _ => rfl⟩, ?_⟩, ?_⟩ ?_
    · intro e he
      cases he
    · exact backlog_of_run (.refl (initial c))
    · intro s e t hs hstep
      exact ⟨hs.1.step hstep fun i hi => (hs.2.finishing i hi).1, hs.2.step hstep⟩
  exact hboth.1

/-- **An attach stream keeps its orders.** At any moment of any run: what the
PTY accepted is a first part of the payloads of input frames 1, 2, 3, …; the
acknowledgements sent are those of the first `k` frames, all of which the PTY
accepted whole; the events sent are the first ones of the subscriber, an exit
only after the root's exit was observed; the backlog's error is not among
what was sent. In a run whose driver queues nothing more once an item that
closes the stream is queued, nothing follows a `Close` or `Error` frame. -/
theorem attach_stream_order (c : StreamConfig ω) :
      (∀ tr s, Run (Step c) (initial c) tr s → s.handed <+: delivered c s.inputs ∧
      (∀ k f, s.inputs[k]? = some f → f.input = some (c.attachWriteId (k + 1))) ∧
      (∃ k, sentAcks s.sent = (s.inputs.take k).map ackOf ∧ delivered c (s.inputs.take k) <+: s.handed) ∧
      eventsOf (sentItems s.sent) <+: s.received ∧
      (∀ e ∈ eventsOf (sentItems s.sent), c.isExit e → s.rootExit) ∧
      .item (.error .ackBacklog) ∉ s.sent) ∧
    ∀ tr s, Run (CarefulStep c) (initial c) tr s →
      ∀ front x rest, s.sent = front ++ x :: rest → closes c x → rest = [] := by
  refine ⟨fun tr s h => ?_, fun tr s h => ?_⟩
  · have hin := inputOrder_of_run h
    have hout := outputOrder_of_run h
    obtain ⟨k, hacks, hhanded, hbound, -⟩ := hin.acked
    obtain ⟨lost, hlost, -⟩ := hout.events
    refine ⟨hin.handed_part, hin.ids, ?_, ?_, fun e he => hout.exits e ?_, fun hmem => ?_⟩
    · have hle : (sentAcks s.sent).length ≤ k := by
        have hlength := congrArg List.length hacks
        simp only [length_append, length_map, length_take] at hlength
        omega
      refine ⟨(sentAcks s.sent).length, ?_, ?_⟩
      · have htake := congrArg (List.take (sentAcks s.sent).length) hacks
        rwa [take_left, ← map_take, take_take, Nat.min_eq_left hle] at htake
      · have hpart : s.inputs.take (sentAcks s.sent).length <+: s.inputs.take k :=
          take_prefix_take_left hle
        obtain ⟨more, hmore⟩ := hpart
        rw [← hmore, delivered_append] at hhanded
        exact (prefix_append _ _).trans hhanded
    · rw [hlost, queued, eventsOf_append, append_assoc, append_assoc]
      exact prefix_append _ _
    · rw [queued, eventsOf_append]
      exact mem_append_left _ he
    · exact (backlog_of_run h).queued (mem_append_left _ (mem_filterMap.mpr ⟨_, hmem, rfl⟩))
  · have hends : Ends c s := by
      refine h.invariant ⟨?_, ?_, ?_, ?_⟩ fun hs hstep => hs.step hstep
      · intro front x rest heq
        simp [queued, sentItems, initial] at heq
      · intro front x rest heq
        simp [initial] at heq
      · intro x hx
        simp [sentItems, initial] at hx
      · intro i hi
        simp [initial] at hi
    exact hends.sentLast

end Order

end AttachStream

end Stream

/-! A stream with room for two events and one acknowledgement, whose events
are numbers and whose exit is 0. -/

def sampleStream : StreamConfig ℕ where
  streamId := "stream-1"
  workerInstanceId := "worker-1"
  mode := .attach
  expectedLeaseEpoch := 0
  outputQueueEvents := 2
  ackBacklog := 1
  deliver := id
  isExit event := event == 0

def sampleInput (sequence : ℕ) (payload : List UInt8) : StreamEvent ℕ :=
  .inputArm (.ok (some ⟨some (sampleStream.attachWriteId sequence), "worker-1", "stream-1",
    payload⟩)) true

namespace AttachStream

/-- `CarefulStep`, computed. -/
def carefulStep : AttachStream ℕ → StreamEvent ℕ → Option (AttachStream ℕ) :=
  Runs.guarded (step sampleStream) fun s e => !s.closed sampleStream || !s.queues sampleStream e

theorem carefulStep_spec {s t : AttachStream ℕ} {e : StreamEvent ℕ} (h : carefulStep s e = some t) :
    s.CarefulStep sampleStream e t := by
  obtain ⟨hstep, hcareful⟩ := Runs.guarded_eq_some h
  exact ⟨hstep, fun hclosed => by simpa [hclosed] using hcareful⟩

/-- Two input frames and two events, then the exit. -/
def sampleRun : List (StreamEvent ℕ) :=
  [sampleInput 1 [104, 105], .pollWrite, .outputArm (some 7) true, .ptyAccepts 1, .ptyAccepts 1,
    .ptyDone, .writtenArm,
    .sendAck, .frameWritten, sampleInput 2 [33], .pollWrite, .sendItem, .frameWritten,
    .outputArm (some 0) true, .exited,
    .exitArm true, .outputArm none true, .sendItem, .frameWritten, .writerDone]

/-- The run's frames: an acknowledgement, an event, and the exit's `Close`. -/
theorem attach_stream_order_sample :
    ∃ s, Run (CarefulStep sampleStream) (initial sampleStream) sampleRun s ∧
    s.sent = [.ack ⟨"attach-stream-1-1", 2⟩, .item (.event 7), .item (.event 0)] ∧ s.handed = [104, 105] ∧
    s.handed <+: delivered sampleStream s.inputs ∧
    ∀ front x rest, s.sent = front ++ x :: rest → closes sampleStream x → rest = [] := by
  have hrun :=
    (Runs.steps_get carefulStep (initial sampleStream) sampleRun (by decide +kernel)).mono carefulStep_spec
  obtain ⟨horder, hends⟩ := attach_stream_order sampleStream
  exact ⟨_, hrun, by decide +kernel, by decide +kernel,
    (horder _ _ (hrun.mono fun h => h.1)).1, hends _ _ hrun⟩

/-- **A frame after the `Close`.** The exit is queued while the lease changes;
the driver takes the lease's arm before it sees the end of its output, and the
writer sends two closes. -/
theorem frames_after_close : ∃ s, Run (Step sampleStream) (initial sampleStream)
    [.exited, .outputArm (some 0) true, .lease 1, .leaseArm,
      .finishSend, .sendItem, .frameWritten, .sendItem] s ∧
    s.sent = [.item (.event 0), .item (.close .leaseReleased)] ∧
    ¬ ∀ front x rest, s.sent = front ++ x :: rest → closes sampleStream x → rest = [] := by
  refine ⟨_, Runs.steps_get _ _ _ (by decide +kernel), by decide +kernel, fun hlast => ?_⟩
  have hrest := hlast [] (.item (.event 0)) [.item (.close .leaseReleased)] (by decide +kernel) rfl
  cases hrest

end AttachStream

end Stream
end Pohunek
