/-
# Forwarding identity operations to the worker

One session of the daemon, the instances of its worker and the requests
between them. `Worker` is the worker's side: it handles a request only if its
exchange number is above every one handled before, and raises its identity
revision when it journals a forwarded request or a hook report. The daemon's
side is `forward_active_report` and `forward_active_release` of
`crates/daemon/src/session/forward.rs` from the identity-commit guard to
`attach_unacknowledged`, the commits of the periodic sync, and two of the ways an
entry is replaced: `adopt_live_record` installs a new entry with a guard of its
own, and `commit_runtime_transition` installs a copy taken earlier. The entry
that reconciling installs for a runtime out of reach (`unavailable_entry`) is
left out.

A request that left stays on the wire, so it may be handled at any later
moment or never; an answer may be read at any later moment or never. What a
forwarded request records as `fence` is `fence_at_send` at the moment it left;
the daemon does not see it.
-/
import Pohunek.Lib.Run
import Pohunek.Identity.Fence

namespace Pohunek.Identity

/-! ### The worker -/

inductive RequestKind
  | forward (fence : ℕ)
  | inspect
  deriving DecidableEq

structure Request where
  workerInstanceId : String
  order : ExchangeOrder
  kind : RequestKind
  deriving DecidableEq

inductive Answer
  | accepted (revision : ℕ)
  | rejected
  | snapshot (revision : ℕ)
  deriving DecidableEq

/-- A worker instance: its revision, the newest request it handled and the
answers it gave. -/
structure Worker where
  revision : ℕ
  handled : Option ExchangeOrder
  answers : List (ExchangeOrder × Answer)
  deriving DecidableEq

namespace Worker

def hookReport (w : Worker) : Worker := { w with revision := w.revision + 1 }

/-- The answer to a request, and the revision after it. -/
def reply (w : Worker) (journals : Bool) : RequestKind → ℕ × Answer
  | .forward _ => if journals then (w.revision + 1, .accepted (w.revision + 1))
    else (w.revision, .rejected)
  | .inspect => (w.revision, .snapshot w.revision)

def handle (w : Worker) (r : Request) (journals : Bool) : Option Worker :=
  if w.handled.all (· < r.order) then
    some {
      revision := (w.reply journals r.kind).1
      handled := some r.order
      answers := w.answers ++ [(r.order, (w.reply journals r.kind).2)] }
  else none

end Worker

/-! ### The daemon -/

structure Forward where
  operation : ForwardedOperation
  key : ClaimKey
  workerInstanceId : String
  connection : ℕ
  deriving DecidableEq

/-- Where a forward stands that holds the guard. `before` is the fence of the
pending operation it built before its request left. -/
inductive Phase
  | holding
  | ready (before : IdentityFence)
  | sent (before : IdentityFence) (order : ExchangeOrder)
  | accepted
  | unacknowledged (pending : Pending)
  deriving DecidableEq

/-- Who holds an identity-commit guard: a forward, or a sync. -/
inductive Holder
  | forward (op : Forward) (phase : Phase)
  | sync
  deriving DecidableEq

/-- The operation as the daemon tracks it. -/
def Forward.pending (op : Forward) (revision : IdentityFence) (acknowledged : Bool)
    (sent : Option ExchangeOrder) : Pending where
  operation := op.operation
  key := op.key
  revision := revision
  acknowledged := acknowledged
  sent := sent

/-- The session. `peers` are the worker instances of the connections, in the
order their leases were granted. `incarnation` names the guard of the entry;
`waiting` are the callers that took a guard from an entry and wait for it,
`loose` the operations of forwards that failed, `clones` the entries a runtime
transition copied. -/
structure System where
  workers : String → Worker
  peers : List String
  wire : List Request
  entry : SessionEntry
  incarnation : ℕ
  incarnations : ℕ
  guards : ℕ → Option Holder
  waiting : List (ℕ × Holder)
  loose : List Pending
  clones : List (ℕ × SessionEntry)

namespace System

def setWorker (s : System) (instance_ : String) (w : Worker) : System :=
  { s with workers := Function.update s.workers instance_ w }

def setGuard (s : System) (guard : ℕ) (h : Option Holder) : System :=
  { s with guards := Function.update s.guards guard h }

def write (s : System) (r : Request) : System := { s with wire := s.wire ++ [r] }

/-- The requests written on a connection. -/
def written (s : System) (connection : ℕ) :
    ℕ := s.wire.countP fun r => r.order.connection = connection

/-- The stamp of the next request on the connection with this index. -/
def nextOrder (s : System) (index : ℕ) : ExchangeOrder := ⟨index + 1, s.written (index + 1) + 1⟩

variable (s : System) (instance_ : String) (order : ExchangeOrder)

/-- The revision of the snapshot the worker answered to a request. -/
def snapshotAt : Option ℕ :=
  (s.workers instance_).answers.findSome? fun
    | (o, .snapshot revision) => if o = order then some revision else none
    | _ => none

def acceptedAt : Option ℕ :=
  (s.workers instance_).answers.findSome? fun
    | (o, .accepted revision) => if o = order then some revision else none
    | _ => none

def refusedAt : Bool :=
  (order, Answer.rejected) ∈ (s.workers instance_).answers

def initial (revisions : String → ℕ) (instance_ : Option String) : System where
  workers := fun i => ⟨revisions i, none, []⟩
  peers := []
  wire := []
  entry := ⟨instance_, none, none, none, none, []⟩
  incarnation := 0
  incarnations := 1
  guards := fun _ => none
  waiting := []
  loose := []
  clones := []

end System

/-- What happens next. `connect`, `inspect`, `handle` and `hookReport` are
connections, snapshot requests and the worker's own steps; `observe` is
`record_identity_observation`, which takes no guard. From `queue` to `release`
are the steps of the holders of a guard, named by its number. -/
inductive Input
  | connect (workerInstanceId : String)
  | inspect (connection : ℕ)
  | handle (request : ℕ) (journals : Bool)
  | hookReport (workerInstanceId : String)
  | observe (workerInstanceId : String) (order : ExchangeOrder)
  | queue (holder : Option Forward)
  | acquire (index : ℕ)
  | prepare (guard : ℕ)
  | send (guard : ℕ)
  | accept (guard : ℕ)
  | refuse (guard : ℕ)
  | lose (guard : ℕ)
  | attach (guard : ℕ)
  | fail (guard : ℕ)
  | attachLoose (index : ℕ)
  | apply (guard : ℕ) (workerInstanceId : String) (order : ExchangeOrder) (accepted : Bool)
      (ended : Option ClaimKey)
  | settle (guard : ℕ)
  | release (guard : ℕ)
  | adopt (workerInstanceId : String) (order : ExchangeOrder) (applied : Bool)
  | clone
  | install (index : ℕ)
  deriving DecidableEq

/-- Whether the input replaces the session's entry. -/
def Input.replaces : Input → Bool
  | .adopt .. | .install .. => true
  | _ => false

/-- A holder that may commit a snapshot: a sync, or a forward whose operation
the worker accepted. -/
def Holder.commits : Holder → Bool
  | .sync | .forward _ .accepted => true
  | .forward .. => false

namespace System

def step (s : System) : Input → Option System
  | .connect instance_ => some { s with peers := s.peers ++ [instance_] }
  | .inspect c => s.peers[c]?.map fun instance_ => s.write ⟨instance_, s.nextOrder c, .inspect⟩
  | .handle n journals => s.wire[n]?.bind fun r =>
    ((s.workers r.workerInstanceId).handle r journals).map fun w => s.setWorker r.workerInstanceId w
  | .hookReport instance_ => some (s.setWorker instance_ (s.workers instance_).hookReport)
  | .observe instance_ order => (s.snapshotAt instance_ order).map fun revision =>
    { s with entry := (s.entry.observeIdentity ⟨instance_, revision⟩ order).1 }
  | .queue op =>
    some { s with
      waiting := s.waiting ++ [(s.incarnation, op.elim .sync fun op => .forward op .holding)] }
  | .acquire n => s.waiting[n]?.bind fun (guard, holder) =>
    match s.guards guard with
    | none => some ({ s with waiting := s.waiting.eraseIdx n }.setGuard guard (some holder))
    | some _ => none
  | .prepare guard =>
    match s.guards guard with
    | some (.forward op .holding) =>
      if s.peers[op.connection]? = some op.workerInstanceId then
        some (s.setGuard guard (some (.forward op (.ready (s.entry.fenceAtSend op.workerInstanceId)))))
      else none
    | _ => none
  | .send guard =>
    match s.guards guard with
    | some (.forward op (.ready before)) =>
      let order := s.nextOrder op.connection
      some ((s.setGuard guard (some (.forward op (.sent before order)))).write
        ⟨op.workerInstanceId, order, .forward (s.entry.fenceAtSend op.workerInstanceId).revision⟩)
    | _ => none
  | .accept guard =>
    match s.guards guard with
    | some (.forward op (.sent _ order)) =>
      (s.acceptedAt op.workerInstanceId order).map fun revision =>
        { s with entry := s.entry.noteForwarded (op.pending
          ⟨op.workerInstanceId, revision⟩ true none) }.setGuard guard
          (some (.forward op .accepted))
    | _ => none
  | .refuse guard =>
    -- Refused, not forwardable, or given up before the request left.
    match s.guards guard with
    | some (.forward _ .holding) | some (.forward _ (.ready _)) => some (s.setGuard guard none)
    | some (.forward op (.sent _ order)) =>
      if s.refusedAt op.workerInstanceId order then some (s.setGuard guard none) else none
    | _ => none
  | .lose guard =>
    -- The answer timed out or was lost: the fence is read again, now.
    match s.guards guard with
    | some (.forward op (.sent _ order)) =>
      let pending := op.pending (s.entry.fenceAtSend op.workerInstanceId) false (some order)
      some (s.setGuard guard (some (.forward op (.unacknowledged pending))))
    | _ => none
  | .attach guard =>
    match s.guards guard with
    | some (.forward _ (.unacknowledged pending)) =>
      some ({ s with entry := s.entry.attachUnacknowledged pending }.setGuard guard none)
    | _ => none
  | .fail guard =>
    -- The task failed: what it built before the request left is tracked.
    match s.guards guard with
    | some (.forward op (.sent before order)) =>
      some ({ s with loose := s.loose ++ [op.pending before false (some order)] }.setGuard guard none)
    | _ => none
  | .attachLoose n => s.loose[n]?.map fun pending =>
    { s with entry := s.entry.attachUnacknowledged pending, loose := s.loose.eraseIdx n }
  | .apply guard instance_ order accepted ended =>
    if (s.guards guard).any Holder.commits then
      (s.snapshotAt instance_ order).map fun revision =>
        { s with entry := s.entry.applySnapshot ⟨instance_, revision⟩ accepted ended }
    else none
  | .settle guard =>
    if (s.guards guard).any Holder.commits then
      some { s with entry := s.entry.settlePendingActivity } else none
  | .release guard => if (s.guards guard).any Holder.commits then some (s.setGuard guard none) else none
  | .adopt instance_ order applied => (s.snapshotAt instance_ order).map fun revision =>
    { s with
      entry := .adopted ⟨instance_, revision⟩ applied
      incarnation := s.incarnations
      incarnations := s.incarnations + 1 }
  | .clone => some { s with clones := s.clones ++ [(s.incarnation, s.entry)] }
  | .install n => s.clones[n]?.map fun (incarnation, entry) => { s with entry, incarnation }

/-- Nobody waits for a guard or holds the entry's. -/
def Idle (s : System) : Prop := s.waiting = [] ∧ s.guards s.incarnation = none

instance (s : System) : Decidable s.Idle := inferInstanceAs (Decidable (_ ∧ _))

def Step (s : System) (i : Input) (t : System) : Prop := s.step i = some t

/-- A step that replaces the entry only while no identity operation of the
session is under way. -/
def QuietStep (s : System) (i : Input) (t : System) : Prop := s.Step i t ∧ (i.replaces → s.Idle)

end System

end Pohunek.Identity
