/-
# Identity fences and pending forwarded operations

The part of a session entry that follows the worker's active-identity
revision: `crates/daemon/src/session/claim.rs` (`observe_identity`,
`revision_state`, `rejected_by`, `pending_operations`, `memory_floor`,
`attach_unacknowledged`), `fence_at_send`, `note_forwarded_report`,
`note_forwarded_release` and `settle_pending_activity` of
`crates/daemon/src/session/forward.rs`, and what
`apply_worker_metadata_snapshot_locked` of
`crates/daemon/src/session/reconcile.rs` does to this part.

Reports and releases are pending in the same way, so `Pending` is one record
with the kind of its operation. An accepted operation raises the floor an
operation is sent at; one whose answer was lost does not.
-/
import Mathlib.Tactic

namespace Pohunek.Identity

open List Bool

/-! ### Revisions and exchanges -/

structure IdentityFence where
  workerInstanceId : String
  revision : ℕ
  deriving DecidableEq

/-- Where a request stands in the order a worker handles them: the number of
its connection, then its number on that connection. -/
structure ExchangeOrder where
  connection : ℕ
  exchange : ℕ
  deriving DecidableEq

instance : LT ExchangeOrder :=
  ⟨fun a b => a.connection < b.connection ∨ a.connection = b.connection ∧ a.exchange < b.exchange⟩

theorem ExchangeOrder.lt_def (a b : ExchangeOrder) :
    a < b ↔ a.connection < b.connection ∨ a.connection = b.connection ∧
    a.exchange < b.exchange := Iff.rfl

instance (a b : ExchangeOrder) : Decidable (a < b) :=
  decidable_of_iff _ (ExchangeOrder.lt_def a b).symm

theorem ExchangeOrder.lt_irrefl (a : ExchangeOrder) : ¬ a < a := by
  rw [lt_def]
  omega

theorem ExchangeOrder.lt_trans {a b c : ExchangeOrder} (hab : a < b) (hbc : b < c) : a < c := by
  rw [lt_def] at *
  omega

structure IdentityObservation where
  fence : IdentityFence
  order : ExchangeOrder
  deriving DecidableEq

structure ClaimKey where
  provider : String
  pid : ℕ
  startIdentity : ℕ
  sequence : ℕ
  deriving DecidableEq

/-! ### Pending operations -/

inductive ForwardedOperation
  | report | release
  deriving DecidableEq

/-- A forwarded operation the worker accepted, or may have accepted, and the
daemon has not adopted: `PendingActivity` and `PendingRelease`. -/
structure Pending where
  operation : ForwardedOperation
  key : ClaimKey
  revision : IdentityFence
  acknowledged : Bool
  sent : Option ExchangeOrder
  deriving DecidableEq

inductive PendingState
  | waiting | settled | obsolete | rejected
  deriving DecidableEq

variable (revision : IdentityFence)

def rejectedBy : Option ExchangeOrder → Option IdentityObservation → Bool
  | some sent, some observed =>
    observed.fence.workerInstanceId = revision.workerInstanceId ∧ sent < observed.order ∧
      observed.fence.revision = revision.revision
  | _, _ => false

def passed (acknowledged : Bool) (fence : IdentityFence) : Bool :=
  if acknowledged then revision.revision ≤ fence.revision else revision.revision < fence.revision

def revisionState (acknowledged : Bool) (sent : Option ExchangeOrder)
    (fence : Option IdentityFence) (observed : Option IdentityObservation) : PendingState :=
  if fence.any (fun fence => fence.workerInstanceId ≠ revision.workerInstanceId) then .obsolete
  else if !acknowledged && rejectedBy revision sent observed then .rejected
  else match fence with
    | none => .waiting
    | some fence => if passed revision acknowledged fence then .settled else .waiting

variable {observed : Option IdentityObservation} {fence : Option IdentityFence}

variable {sent : Option ExchangeOrder}

/-- A verdict of rejection reads a snapshot of the same instance, handled
later, at the very revision the operation is held against. -/
theorem revisionState_eq_rejected {revision : IdentityFence} {acknowledged : Bool}
    (h : revisionState revision acknowledged sent fence observed = .rejected) :
    acknowledged = false ∧ ∃ order seen, sent = some order ∧ observed = some seen ∧
      seen.fence.workerInstanceId = revision.workerInstanceId ∧ order < seen.order ∧
      seen.fence.revision = revision.revision := by
  revert h
  fun_cases revisionState revision acknowledged sent fence observed <;> rintro ⟨⟩
  next hrejected _ =>
    rw [and_eq_true, not_eq_true'] at hrejected
    refine ⟨hrejected.1, ?_⟩
    have hby := hrejected.2
    unfold rejectedBy at hby
    split at hby
    · exact ⟨_, _, rfl, rfl, of_decide_eq_true hby⟩
    · cases hby

/-- A verdict of settlement reads a fence of the same instance at the revision
the worker answered, or beyond the one the operation is held against. -/
theorem revisionState_eq_settled {revision : IdentityFence} {acknowledged : Bool}
    (h : revisionState revision acknowledged sent fence observed = .settled) :
    ∃ held, fence = some held ∧ held.workerInstanceId = revision.workerInstanceId ∧
      if acknowledged then revision.revision ≤ held.revision
        else revision.revision < held.revision := by
  revert h
  fun_cases revisionState revision acknowledged sent fence observed <;> rintro ⟨⟩
  next held hpassed hinstance =>
    refine ⟨held, rfl, by simpa using hinstance, ?_⟩
    cases acknowledged <;> simpa [passed] using hpassed

/-- An accepted operation is never read as rejected, and is obsolete with its
instance. -/
theorem revisionState_acknowledged (sent : Option ExchangeOrder)
    (fence : Option IdentityFence) (observed : Option IdentityObservation) :
    revisionState revision true sent fence observed ≠ .rejected ∧
    (revisionState revision true sent fence observed = .obsolete ↔
      fence.any (fun fence => fence.workerInstanceId ≠ revision.workerInstanceId) = true) := by
  unfold revisionState
  split
  · simp_all
  · rw [Bool.not_true, Bool.false_and, if_neg Bool.false_ne_true]
    split
    · simp
    · split <;> simp_all

namespace Pending

def state (p : Pending) (fence : Option IdentityFence) (observed : Option IdentityObservation) :
    PendingState :=
  revisionState p.revision p.acknowledged p.sent fence observed

end Pending

/-! ### The entry -/

/-- What a session entry keeps of its worker's identity; `workerInstanceId` is
the instance the session's record names. -/
structure SessionEntry where
  workerInstanceId : Option String
  identityFence : Option IdentityFence
  identityObserved : Option IdentityObservation
  pendingActivity : Option Pending
  pendingRelease : Option Pending
  displacedPending : List Pending
  deriving DecidableEq

namespace SessionEntry

/-- Every operation the entry holds. -/
def tracked (e : SessionEntry) : List Pending :=
  e.pendingActivity.toList ++ e.pendingRelease.toList ++ e.displacedPending

variable (e : SessionEntry) (p : Pending)

def verdict : PendingState := p.state e.identityFence e.identityObserved

def hasRejectedPending (e : SessionEntry) : Bool := e.tracked.any fun p => e.verdict p = .rejected

def observeIdentity (e : SessionEntry) (fence : IdentityFence) (order : ExchangeOrder) :
    SessionEntry × Bool :=
  let e :=
    if e.identityObserved.all (fun held => held.order < order) then
      { e with identityObserved := some ⟨fence, order⟩ }
    else e
  (e, e.hasRejectedPending)

def pendingOperations (e : SessionEntry) : List Pending :=
  e.tracked.filter fun p => !(e.verdict p = .obsolete || e.verdict p = .rejected)

/-- The floor raised by one operation of `pendingOperations`. -/
def raise (floor : Option IdentityFence) (p : Pending) : Option IdentityFence :=
  if p.acknowledged then
    if floor.all (fun floor =>
        floor.workerInstanceId = p.revision.workerInstanceId ∧
          floor.revision < p.revision.revision) then
      some p.revision
    else floor
  else floor

/-- The newest revision committed or accepted: the first part of
`memory_floor`. -/
def memoryFloor (e : SessionEntry) : Option IdentityFence :=
  e.pendingOperations.foldl raise e.identityFence

def fenceAtSend (e : SessionEntry) (instance_ : String) : IdentityFence where
  workerInstanceId := instance_
  revision := ((e.memoryFloor.filter fun floor => floor.workerInstanceId = instance_).map
    (·.revision)).getD 0

/-! ### What changes the entry -/

def attachUnacknowledged : SessionEntry :=
  match p.operation with
  | .report =>
    if e.pendingActivity.any (·.acknowledged) then
      { e with displacedPending := e.displacedPending ++ [p] }
    else { e with pendingActivity := some p, displacedPending := e.displacedPending ++
      e.pendingActivity.toList }
  | .release =>
    if e.pendingRelease.any (·.acknowledged) then { e with displacedPending := e.displacedPending ++ [p] }
    else { e with
      pendingRelease := some p, displacedPending := e.displacedPending ++ e.pendingRelease.toList }

/-- `note_forwarded_report` and `note_forwarded_release`: the operation the
worker accepted at a revision takes its slot, unless a newer report waits
there. -/
def noteForwarded : SessionEntry :=
  match p.operation with
  | .report =>
    if e.pendingActivity.any (fun waiting =>
        waiting.revision.workerInstanceId = p.revision.workerInstanceId ∧
          p.revision.revision ≤ waiting.revision.revision)
    then e
    else { e with pendingActivity := some p }
  | .release => { e with pendingRelease := some p }

/-- `settle_pending_activity`: only the operations that wait stay. -/
def settlePendingActivity (e : SessionEntry) : SessionEntry :=
  { e with
    pendingActivity := e.pendingActivity.filter fun p => e.verdict p = .waiting
    pendingRelease := e.pendingRelease.filter fun p => e.verdict p = .waiting
    displacedPending := e.displacedPending.filter fun p => e.verdict p = .waiting }

variable (e : SessionEntry) (new : IdentityFence)

def advanceIdentityFence : SessionEntry :=
  match e.identityFence with
  | some fence =>
    if fence.workerInstanceId = new.workerInstanceId then
      { e with identityFence := some { fence with revision := max fence.revision new.revision } }
    else { e with identityFence := some new }
  | none => { e with identityFence := some new }

/-- A release the worker's journal shows ends the forwarded release that waits
for it. -/
def adoptRelease (e : SessionEntry) (ended : Option ClaimKey) : SessionEntry :=
  { e with
    pendingRelease := e.pendingRelease.filter fun p => some p.key ≠ ended
    displacedPending :=
      e.displacedPending.filter fun p => !(p.operation = .release && some p.key = ended) }

/-- `apply_worker_metadata_snapshot_locked` on the snapshot `new`. `accepted`
says whether its identities passed validation, and `ended` is the released
claim its projection adopts, if any. A snapshot of another instance than the
record's is discarded, and one below the fence changes no identity. -/
def applySnapshot (accepted : Bool) (ended : Option ClaimKey) : SessionEntry :=
  if e.workerInstanceId ≠ some new.workerInstanceId then e
  else
    let superseded : Bool := e.identityFence.any fun fence =>
      fence.workerInstanceId = new.workerInstanceId ∧ new.revision < fence.revision
    if accepted then
      if superseded then e.settlePendingActivity
      else ((e.adoptRelease ended).advanceIdentityFence new).settlePendingActivity
    else e

/-- The entry of a worker adopted from its snapshot; `applied` says whether
the snapshot's identities were imported. -/
def adopted (new : IdentityFence) (applied : Bool) : SessionEntry where
  workerInstanceId := some new.workerInstanceId
  identityFence := if applied then some new else none
  identityObserved := none
  pendingActivity := none
  pendingRelease := none
  displacedPending := []

/-! ### What the floor depends on -/

/-- The operations the worker accepted. -/
def accepted (e : SessionEntry) : List Pending := e.tracked.filter (·.acknowledged)

theorem foldl_raise (floor : Option IdentityFence) (ps : List Pending) :
    ps.foldl raise floor = (ps.filter (·.acknowledged)).foldl raise floor := by
  rw [foldl_filter]
  refine foldl_ext _ _ _ fun floor p _ => ?_
  by_cases hp : p.acknowledged
  · rw [if_pos hp]
  · rw [if_neg hp, raise, if_neg hp]

/-- An accepted operation counts unless the fence is of another instance. -/
theorem filter_pendingOperations (e : SessionEntry) :
    e.pendingOperations.filter (·.acknowledged) = e.accepted.filter fun p =>
      !e.identityFence.any fun fence => fence.workerInstanceId ≠ p.revision.workerInstanceId := by
  rw [pendingOperations, accepted, filter_filter, filter_filter]
  refine filter_congr fun p _ => ?_
  cases hp : p.acknowledged with
  | false => simp
  | true =>
    have hverdict : e.verdict p =
      revisionState p.revision true p.sent e.identityFence e.identityObserved := by
      rw [verdict, Pending.state, hp]
    have hstate := revisionState_acknowledged p.revision p.sent e.identityFence e.identityObserved
    rw [← hverdict] at hstate
    have hobsolete : decide (e.verdict p = .obsolete) =
        e.identityFence.any fun fence => fence.workerInstanceId ≠ p.revision.workerInstanceId :=
      eq_iff_iff.mpr (decide_eq_true_iff.trans hstate.2)
    have hrejected : decide (e.verdict p = .rejected) = false := decide_eq_false hstate.1
    rw [hobsolete, hrejected, Bool.or_false, Bool.true_and, Bool.and_true]

variable {e : SessionEntry}

/-- The floor reads the fence and the accepted operations only. -/
theorem memoryFloor_congr {e' : SessionEntry} (hfence : e'.identityFence = e.identityFence)
    (haccepted : e'.accepted = e.accepted) : e'.memoryFloor = e.memoryFloor := by
  rw [memoryFloor, memoryFloor, foldl_raise, foldl_raise e.identityFence, filter_pendingOperations,
    filter_pendingOperations, hfence, haccepted]

theorem fenceAtSend_congr {e' : SessionEntry} (hfence : e'.identityFence = e.identityFence)
    (haccepted : e'.accepted = e.accepted) (instance_ : String) :
    e'.fenceAtSend instance_ = e.fenceAtSend instance_ := by
  rw [fenceAtSend, fenceAtSend, memoryFloor_congr hfence haccepted]

theorem foldl_raise_mem {f : IdentityFence} : ∀ (ps : List Pending) (floor : Option IdentityFence),
    ps.foldl raise floor = some f → floor = some f ∨ ∃ p ∈ ps, p.acknowledged ∧ p.revision = f
  | [], _, h => .inl h
  | p :: ps, floor, h => by
    rcases foldl_raise_mem ps _ h with hfloor | ⟨q, hq, hback⟩
    · rw [raise] at hfloor
      split at hfloor
      · rename_i hp
        split at hfloor
        · exact .inr ⟨p, mem_cons_self, hp, Option.some.inj hfloor⟩
        · exact .inl hfloor
      · exact .inl hfloor
    · exact .inr ⟨q, mem_cons_of_mem _ hq, hback⟩

/-- The fence an operation is sent at is the committed one, or the revision of
an accepted operation, or nothing is known of the instance. -/
theorem fenceAtSend_cases (e : SessionEntry) (instance_ : String) :
    (e.fenceAtSend instance_).revision = 0 ∨ e.identityFence = some (e.fenceAtSend instance_) ∨
      ∃ p ∈ e.tracked, p.acknowledged ∧ p.revision = e.fenceAtSend instance_ := by
  cases hfloor : e.memoryFloor.filter fun floor => floor.workerInstanceId = instance_ with
  | none => exact .inl (by rw [fenceAtSend, hfloor]; rfl)
  | some f =>
    obtain ⟨hmemory, hinstance⟩ := Option.filter_eq_some_iff.mp hfloor
    have hf : e.fenceAtSend instance_ = f := by
      rw [fenceAtSend, hfloor, ← of_decide_eq_true hinstance]
      rfl
    rw [hf]
    rcases foldl_raise_mem _ _ hmemory with hfence | ⟨p, hp, hback⟩
    · exact .inr (.inl hfence)
    · exact .inr (.inr ⟨p, mem_of_mem_filter hp, hback⟩)

/-! ### What each change leaves -/

theorem mem_tracked {p : Pending} :
    p ∈ e.tracked ↔ e.pendingActivity = some p ∨ e.pendingRelease = some p ∨
    p ∈ e.displacedPending := by
  simp [tracked]

theorem observeIdentity_fst (e : SessionEntry) (fence : IdentityFence) (order : ExchangeOrder) :
    ∃ observed, (e.observeIdentity fence order).1 = { e with identityObserved := observed } ∧
      (observed = e.identityObserved ∨ observed = some ⟨fence, order⟩) := by
  rw [observeIdentity]
  split
  · exact ⟨_, rfl, .inr rfl⟩
  · exact ⟨_, rfl, .inl rfl⟩

/-- An operation whose answer was lost joins the others and raises nothing. -/
theorem attachUnacknowledged_spec (e : SessionEntry) {p : Pending} (hp : p.acknowledged = false) :
    (e.attachUnacknowledged p).workerInstanceId = e.workerInstanceId ∧
    (e.attachUnacknowledged p).identityFence = e.identityFence ∧
    (e.attachUnacknowledged p).identityObserved = e.identityObserved ∧
    (e.attachUnacknowledged p).accepted = e.accepted ∧
    ∀ q ∈ (e.attachUnacknowledged p).tracked, q = p ∨ q ∈ e.tracked := by
  rw [attachUnacknowledged]
  cases p.operation with
  | report =>
    cases hslot : e.pendingActivity with
    | none => simp [accepted, tracked, hslot, hp]
    | some held =>
      cases hheld : held.acknowledged with
      | true => simp [accepted, tracked, hslot, hp, hheld]; tauto
      | false => simp [accepted, tracked, hslot, hp, hheld]; tauto
  | release =>
    cases hslot : e.pendingRelease with
    | none => simp [accepted, tracked, hslot, hp]; tauto
    | some held =>
      cases hheld : held.acknowledged with
      | true => simp [accepted, tracked, hslot, hp, hheld]; tauto
      | false => simp [accepted, tracked, hslot, hp, hheld]; tauto

theorem noteForwarded_spec :
    (e.noteForwarded p).identityFence = e.identityFence ∧
    (e.noteForwarded p).identityObserved = e.identityObserved ∧
    ∀ q ∈ (e.noteForwarded p).tracked, q = p ∨ q ∈ e.tracked := by
  rw [noteForwarded]
  cases p.operation with
  | report =>
    dsimp only
    split
    · exact ⟨rfl, rfl, fun q hq => .inr hq⟩
    · refine ⟨rfl, rfl, fun q hq => ?_⟩
      rw [mem_tracked] at hq
      rcases hq with hq | hq | hq
      · exact .inl (Option.some.inj hq).symm
      · exact .inr (mem_tracked.mpr (.inr (.inl hq)))
      · exact .inr (mem_tracked.mpr (.inr (.inr hq)))
  | release =>
    refine ⟨rfl, rfl, fun q hq => ?_⟩
    rw [mem_tracked] at hq
    rcases hq with hq | hq | hq
    · exact .inr (mem_tracked.mpr (.inl hq))
    · exact .inl (Option.some.inj hq).symm
    · exact .inr (mem_tracked.mpr (.inr (.inr hq)))

theorem settlePendingActivity_tracked (e : SessionEntry) : ∀ p ∈ e.settlePendingActivity.tracked,
    p ∈ e.tracked := by
  intro p hp
  rw [mem_tracked] at *
  exact hp.imp (fun h => (Option.filter_eq_some_iff.mp h).1)
    (.imp (fun h => (Option.filter_eq_some_iff.mp h).1) mem_of_mem_filter)

theorem adoptRelease_tracked (e : SessionEntry) (ended : Option ClaimKey) :
    ∀ p ∈ (e.adoptRelease ended).tracked, p ∈ e.tracked := by
  intro p hp
  rw [mem_tracked] at *
  exact hp.imp id (.imp (fun h => (Option.filter_eq_some_iff.mp h).1) mem_of_mem_filter)

theorem advanceIdentityFence_spec :
    (e.advanceIdentityFence new).identityObserved = e.identityObserved ∧
    (e.advanceIdentityFence new).tracked = e.tracked := by
  rw [advanceIdentityFence]
  split
  · split <;> exact ⟨rfl, rfl⟩
  · exact ⟨rfl, rfl⟩

/-- A fence that is not above the snapshot becomes the snapshot's. -/
theorem advanceIdentityFence_fence {new : IdentityFence}
    (hcurrent : e.identityFence.any (fun fence =>
      fence.workerInstanceId = new.workerInstanceId ∧ new.revision < fence.revision) = false) :
    (e.advanceIdentityFence new).identityFence = some new := by
  rw [advanceIdentityFence]
  split
  · rename_i fence hfence
    split
    · rename_i hinstance
      rw [hfence] at hcurrent
      have hle : fence.revision ≤ new.revision := by simpa [hinstance] using hcurrent
      simp [hinstance, Nat.max_eq_right hle]
    · rfl
  · rfl

/-- **A snapshot either leaves the fence or becomes it**, and tracks no new
operation. -/
theorem applySnapshot_spec (accepted : Bool) (ended : Option ClaimKey) :
    ((e.applySnapshot new accepted ended).identityFence = e.identityFence ∨
      (e.applySnapshot new accepted ended).identityFence = some new) ∧
    (e.applySnapshot new accepted ended).identityObserved = e.identityObserved ∧
    ∀ p ∈ (e.applySnapshot new accepted ended).tracked, p ∈ e.tracked := by
  rw [applySnapshot]
  split
  · exact ⟨.inl rfl, rfl, fun _ hp => hp⟩
  · dsimp only
    split
    · split
      · exact ⟨.inl rfl, rfl, e.settlePendingActivity_tracked⟩
      · rename_i hcurrent
        refine ⟨.inr ?_, ((e.adoptRelease ended).advanceIdentityFence_spec new).1, fun p hp => ?_⟩
        · exact advanceIdentityFence_fence (e := e.adoptRelease ended) (eq_false_iff.mpr hcurrent)
        · have hadvanced := settlePendingActivity_tracked _ p hp
          rw [((e.adoptRelease ended).advanceIdentityFence_spec new).2] at hadvanced
          exact e.adoptRelease_tracked ended p hadvanced
    · exact ⟨.inl rfl, rfl, fun _ hp => hp⟩

end SessionEntry

end Pohunek.Identity
