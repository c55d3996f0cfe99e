/-
# The background snapshot

The background part of a worker's journal: `clear`, `clear_at` and `clamp_mark`
of `crates/session-worker/src/background.rs`, `apply_background` and
`report_background_clear` of `server.rs`, and what the handlers of snapshots,
identity reports, releases, forwarded reports, the owner's exit and the end of
the runtime do with them. Every handler holds the state's lock from its first
read to the adoption of the journal, so a call is one step.

A call comes here after its admission; what the identity rules decide is told by
its flags. A step reads the clock twice: `barrier` where a report of another
process takes the worker's clock for its sequence, `now` where the mark is
clamped. Marks are clamped but sequences are compared as they are, and the two
meet in `mark ≤ clock`: a claim is newer than the mark before it is clamped, so
the clamped mark is not below the old one (`Background.Moves.mark_le`).
-/
import Pohunek.Lib.Run

namespace Pohunek.Subagents

open Option

open Runs (Run)

/-! ### Snapshots -/

/-- A task whose fields are checked; `fields` are those an item copies. -/
structure Candidate (κ φ : Type*) where
  id : String
  kind : κ
  fields : φ
  deriving DecidableEq

structure BackgroundItem (κ φ : Type*) extends Candidate κ φ where
  firstSeenMs : ℕ
  lastSeenMs : ℕ
  deriving DecidableEq

structure BackgroundSnapshot (κ φ : Type*) where
  revision : ℕ
  observedAtMs : ℕ
  items : List (BackgroundItem κ φ)
  deriving DecidableEq

structure BackgroundOwner where
  pid : ℕ
  startIdentity : String
  deriving DecidableEq

/-- The background fields of `JournalRecord`. -/
structure Background (κ φ : Type*) where
  snapshot : Option (BackgroundSnapshot κ φ)
  owner : Option BackgroundOwner
  sequence : ℕ
  revision : ℕ
  deriving DecidableEq

/-- The process a claim is of, and its sequence. -/
structure ProcessClaim where
  pid : ℕ
  startIdentity : ℕ
  sequence : ℕ
  deriving DecidableEq

def BackgroundOwner.is (owner : BackgroundOwner) (claim : ProcessClaim) : Bool :=
  owner.pid = claim.pid && owner.startIdentity = toString claim.startIdentity

structure SnapshotRequest (κ φ : Type*) where
  claim : ProcessClaim
  candidates : List (Candidate κ φ)
  occurredAtMs : ℕ

inductive ClearReason
  | agentChanged
  | sessionStart
  deriving DecidableEq

inductive BackgroundCall (κ φ : Type*)
  | snapshot (request : SnapshotRequest κ φ)
  /-- `accepted` as the active identity, or refused with its launch claim `deferred`. -/
  | report (claim : ProcessClaim) (sessionSource : Option String) (processValid accepted
    deferred : Bool)
  | forwarded (claim : ProcessClaim)
  | release (claim : ProcessClaim) (releaseReason : Option String) (processValid matched : Bool)
  | ownerExited
  | runtimeEnd
  | runtimeFault

/-- `BACKGROUND_MAX_ITEMS`. -/
def backgroundMaxItems : ℕ := 64

def revisionMax : ℕ := 2 ^ 64 - 1

section Calls

variable {κ φ : Type*}

def buildItems [DecidableEq κ] (candidates : List (Candidate κ φ))
    (previous : Option (BackgroundSnapshot κ φ)) (observedAtMs : ℕ) : List (BackgroundItem κ φ) :=
  candidates.map fun candidate =>
    let known := previous.bind fun snapshot =>
      snapshot.items.find? fun item => item.id = candidate.id && item.kind = candidate.kind
    ⟨candidate, (known.map (·.firstSeenMs)).getD observedAtMs, observedAtMs⟩

def clampMark (clock sequence : ℕ) : ℕ := min sequence clock

namespace Background

/-- `saturating_add(1)`. -/
def nextRevision (j : Background κ φ) : ℕ := min (j.revision + 1) revisionMax

/-- The answer tells whether a snapshot was held. -/
def clear (j : Background κ φ) : Background κ φ × Bool :=
  match j.snapshot with
  | none => ({ j with owner := none }, false)
  | some _ => ({ j with snapshot := none, owner := none, revision := j.nextRevision }, true)

def clearAt (clock : ℕ) (j : Background κ φ) (sequence : ℕ) : Background κ φ × Bool :=
  { j with sequence := max j.sequence (clampMark clock sequence) }.clear

def reportClear (j : Background κ φ) (claim : ProcessClaim) (sessionSource : Option String)
    (accepted : Bool) : Option ClearReason :=
  match j.owner with
  | none => none
  | some owner =>
    if !owner.is claim && accepted then some .agentChanged
    else if claim.sequence ≤ j.sequence then none
    else if !owner.is claim then some .agentChanged
    else if sessionSource = some "startup" ∨ sessionSource = some "resume" then some .sessionStart
    else none

def applyBackground [DecidableEq κ] (clock : ℕ) (j : Background κ φ) (r : SnapshotRequest κ φ) :
    Option (Background κ φ) :=
  if r.claim.sequence ≤ j.sequence then none
  else if backgroundMaxItems < r.candidates.length then none
  else
    let previous := if j.owner.any (·.is r.claim) then j.snapshot else none
    some {
      snapshot := some ⟨j.nextRevision, r.occurredAtMs,
      buildItems r.candidates previous r.occurredAtMs⟩
      owner := some ⟨r.claim.pid, toString r.claim.startIdentity⟩
      sequence := clampMark clock r.claim.sequence
      revision := j.nextRevision }

/-- The sequence the call clears the background at, if it does. -/
def clearsAt (barrier : ℕ) (j : Background κ φ) : BackgroundCall κ φ → Option ℕ
  | .report claim sessionSource processValid accepted _ =>
    let refused := if processValid then j.reportClear claim sessionSource false else none
    if processValid && accepted then
      (refused.or (j.reportClear claim sessionSource true)).map fun reason =>
        if reason = .agentChanged then barrier else claim.sequence
    else refused.map fun _ => claim.sequence
  | .forwarded claim =>
    ((j.reportClear claim none true).filter (· = .agentChanged)).map fun _ => barrier
  | .release claim releaseReason processValid _ =>
    if processValid && releaseReason ≠ some "clear" && decide (j.sequence < claim.sequence) &&
      j.owner.any (·.is claim) then some claim.sequence else none
  | _ => none

end Background

/-- The journal is adopted even if no snapshot was held. -/
def BackgroundCall.adopts : BackgroundCall κ φ → Bool
  | .report _ _ processValid accepted deferred => processValid && accepted || deferred
  | .forwarded _ => true
  | .release _ _ _ matched => matched
  | _ => false

def Background.handle [DecidableEq κ] (barrier now : ℕ) (j : Background κ φ)
    (call : BackgroundCall κ φ) : Background κ φ :=
  match call with
  | .snapshot r => (j.applyBackground now r).getD j
  | .ownerExited | .runtimeEnd | .runtimeFault => j.clear.1
  | call =>
    match j.clearsAt barrier call with
    | some sequence => if (j.clearAt now sequence).2 || call.adopts then
      (j.clearAt now sequence).1 else j
    | none => j

/-- A call, its clock readings and whether its journal could be written. -/
structure BackgroundEvent (κ φ : Type*) where
  call : BackgroundCall κ φ
  barrier : ℕ
  now : ℕ
  persisted : Bool

/-- A fault adopts its journal without regard to the write. -/
def BackgroundEvent.adopted (e : BackgroundEvent κ φ) : Bool :=
  match e.call with
  | .runtimeFault => true
  | _ => e.persisted

structure BackgroundState (κ φ : Type*) where
  journal : Background κ φ
  clock : ℕ
  deriving DecidableEq

namespace BackgroundState

def initial (clock : ℕ) : BackgroundState κ φ := ⟨⟨none, none, 0, 0⟩, clock⟩

def next [DecidableEq κ] (s : BackgroundState κ φ) (e : BackgroundEvent κ φ) :
    BackgroundState κ φ :=
  ⟨if e.adopted then s.journal.handle e.barrier e.now e.call else s.journal, e.now⟩

/-- The worker's clock does not go back. -/
def Step [DecidableEq κ] (s : BackgroundState κ φ) (e : BackgroundEvent κ φ)
    (t : BackgroundState κ φ) : Prop :=
  s.clock ≤ e.barrier ∧ e.barrier ≤ e.now ∧ t = s.next e

end BackgroundState

/-! ### What a call does -/

namespace Background

variable {j j' : Background κ φ} {barrier now : ℕ} {call : BackgroundCall κ φ}

/-- An owner is stored with a snapshot, and the snapshot's revision was taken
from the counter. -/
structure Coherent (j : Background κ φ) : Prop where
  owner : j.owner.isSome = j.snapshot.isSome
  revision : ∀ snapshot ∈ j.snapshot, snapshot.revision ≤ j.revision

/-- Nothing; a newer snapshot stored; or the held snapshot dropped, with the
mark at most raised to the clock. -/
inductive Moves (now : ℕ) (j : Background κ φ) : Background κ φ → Prop
  | same : Moves now j j
  | stored (r : SnapshotRequest κ φ) (items : List (BackgroundItem κ φ))
      (hnewer : j.sequence < r.claim.sequence) :
      Moves now j ⟨some ⟨j.nextRevision, r.occurredAtMs, items⟩,
      some ⟨r.claim.pid, toString r.claim.startIdentity⟩,
        clampMark now r.claim.sequence, j.nextRevision⟩
  | dropped (sequence : ℕ) (hheld : j.snapshot.isSome) (hle : j.sequence ≤ sequence)
      (hclock : sequence ≤ max j.sequence now) : Moves now j ⟨none, none, sequence, j.nextRevision⟩

theorem clear_of_held (h : j.snapshot.isSome) :
    j.clear = (⟨none, none, j.sequence, j.nextRevision⟩, true) := by
  obtain ⟨snapshot, hsnapshot⟩ := isSome_iff_exists.mp h
  rw [clear, hsnapshot]

theorem clear_of_none (h : Coherent j) (hnone : j.snapshot = none) : j.clear = (j, false) := by
  have howner : j.owner = none := by simpa [hnone] using h.owner
  obtain ⟨_, _, _, _⟩ := j
  cases hnone
  cases howner
  rfl

theorem reportClear_held (h : Coherent j) {claim : ProcessClaim} {source : Option String}
    {accepted : Bool} {reason : ClearReason}
    (hreason : j.reportClear claim source accepted = some reason) : j.snapshot.isSome := by
  rw [← h.owner]
  unfold reportClear at hreason
  split at hreason
  · cases hreason
  · rename_i howner
    rw [howner]
    rfl

/-- A call clears only what is held. -/
theorem clearsAt_held (h : Coherent j) {sequence : ℕ}
    (hclears : j.clearsAt barrier call = some sequence) : j.snapshot.isSome := by
  cases call with
  | report claim source processValid accepted deferred =>
    have hrefused : ∀ {reason}, (if processValid then j.reportClear claim source false else none) =
        some reason → j.snapshot.isSome := by
      intro reason hreason
      split at hreason
      · exact reportClear_held h hreason
      · cases hreason
    simp only [clearsAt] at hclears
    split at hclears
    · obtain ⟨reason, hreason, -⟩ := map_eq_some_iff.mp hclears
      rcases or_eq_some_iff.mp hreason with hreason | ⟨-, hreason⟩
      · exact hrefused hreason
      · exact reportClear_held h hreason
    · obtain ⟨reason, hreason, -⟩ := map_eq_some_iff.mp hclears
      exact hrefused hreason
  | forwarded claim =>
    obtain ⟨reason, hreason, -⟩ := map_eq_some_iff.mp hclears
    exact reportClear_held h (filter_eq_some_iff.mp hreason).1
  | release claim reason processValid matched =>
    simp only [clearsAt, ite_none_right_eq_some, Bool.and_eq_true] at hclears
    rw [← h.owner]
    exact isSome_of_any hclears.1.2
  | _ => cases hclears

/-- A call that clears at a sequence drops the snapshot and raises the mark to
the sequence or the clock. -/
theorem handle_clears [DecidableEq κ] (h : Coherent j) {sequence : ℕ}
    (hclears : j.clearsAt barrier call = some sequence) :
    j.handle barrier now call =
    ⟨none, none, max j.sequence (min sequence now), j.nextRevision⟩ := by
  have hcleared : j.clearAt now sequence =
      (⟨none, none, max j.sequence (min sequence now), j.nextRevision⟩, true) :=
    have hheld := clearsAt_held h hclears
    clear_of_held (j := { j with sequence := max j.sequence (clampMark now sequence) }) hheld
  cases call with
  | report | forwarded | release => simp only [handle, hclears, hcleared, Bool.true_or, if_true]
  | _ => cases hclears

theorem clear_moves (h : Coherent j) : Moves now j j.clear.1 := by
  by_cases hheld : j.snapshot.isSome
  · rw [clear_of_held hheld]
    exact .dropped _ hheld le_rfl (le_max_left _ _)
  · rw [clear_of_none h (by simpa using hheld)]
    exact .same

theorem handle_moves [DecidableEq κ] (h : Coherent j) :
    Moves now j (j.handle barrier now call) := by
  cases hclears : j.clearsAt barrier call with
  | some sequence =>
    rw [handle_clears h hclears]
    exact .dropped _ (clearsAt_held h hclears) (le_max_left _ _)
      (max_le_max_left _ (min_le_right _ _))
  | none =>
    cases call with
    | snapshot r =>
      show Moves now j ((j.applyBackground now r).getD j)
      fun_cases applyBackground now j r with
      | case1 | case2 => exact .same
      | case3 hnewer => exact .stored r _ (Nat.not_le.mp hnewer)
    | report | forwarded | release =>
      simp only [handle, hclears]
      exact .same
    | _ => exact clear_moves h

theorem Moves.coherent (h : Moves now j j') (hj : Coherent j) : Coherent j' := by
  cases h with
  | same => exact hj
  | stored r items => exact ⟨rfl, fun _ hsnapshot => by cases hsnapshot; exact le_rfl⟩
  | dropped => exact ⟨rfl, fun _ hsnapshot => by cases hsnapshot⟩

/-- The mark goes up, to the clock at most. -/
theorem Moves.mark_le (h : Moves now j j') (hmark : j.sequence ≤ now) : j.sequence ≤ j'.sequence ∧
    j'.sequence ≤ now := by
  cases h with
  | same => exact ⟨le_rfl, hmark⟩
  | stored r items hnewer => exact ⟨le_min hnewer.le hmark, min_le_right _ _⟩
  | dropped sequence _ hle hclock => exact ⟨hle, hclock.trans (max_le hmark le_rfl)⟩

theorem Moves.revision (h : Moves now j j') (hj : Coherent j) (hbelow : j.revision < revisionMax) :
    j'.revision = j.revision + 1 ∧ j'.snapshot ≠ j.snapshot ∨ j'.revision = j.revision ∧
    j'.snapshot = j.snapshot := by
  have hnext : j.nextRevision = j.revision + 1 := min_eq_left hbelow
  cases h with
  | same => exact .inr ⟨rfl, rfl⟩
  | stored r items =>
    refine .inl ⟨hnext, fun heq => ?_⟩
    have hle := hj.revision _ heq.symm
    rw [hnext] at hle
    exact absurd hle (Nat.not_succ_le_self _)
  | dropped sequence hheld =>
    refine .inl ⟨hnext, fun heq => ?_⟩
    rw [← heq] at hheld
    cases hheld

end Background

/-! ### Runs -/

namespace BackgroundState

open Background

structure Marked (s : BackgroundState κ φ) : Prop where
  mark : s.journal.sequence ≤ s.clock
  coherent : Coherent s.journal

variable [DecidableEq κ] {s t u : BackgroundState κ φ} {e : BackgroundEvent κ φ}
    {tr : List (BackgroundEvent κ φ)} {clock : ℕ}

theorem Step.moves (h : s.Step e t) (hs : Marked s) : Moves t.clock s.journal t.journal := by
  obtain ⟨-, -, rfl⟩ := h
  show Moves e.now s.journal
    (if e.adopted then s.journal.handle e.barrier e.now e.call else s.journal)
  split
  · exact handle_moves hs.coherent
  · exact .same

theorem Step.clock_le (h : s.Step e t) : s.clock ≤ t.clock := by
  obtain ⟨hbarrier, hnow, rfl⟩ := h
  exact hbarrier.trans hnow

theorem Marked.step (hs : Marked s) (h : s.Step e t) : Marked t where
  mark := ((h.moves hs).mark_le (hs.mark.trans h.clock_le)).2
  coherent := (h.moves hs).coherent hs.coherent

theorem marked_of_run (h : Run Step (initial clock : BackgroundState κ φ) tr s) : Marked s :=
  h.invariant ⟨Nat.zero_le _, rfl, fun _ hsnapshot => by cases hsnapshot⟩ fun hs hstep =>
    hs.step hstep

theorem mark_of_run (hs : Marked s) (h : Run Step s tr t) :
    Marked t ∧ s.journal.sequence ≤ t.journal.sequence := by
  refine h.invariant ⟨hs, le_rfl⟩ ?_
  rintro t e u ⟨ht, hle⟩ hstep
  exact ⟨ht.step hstep, hle.trans ((hstep.moves ht).mark_le (ht.mark.trans hstep.clock_le)).1⟩

/-- A claim at or below the mark changes nothing. -/
theorem Step.stale (h : s.Step e t) {r : SnapshotRequest κ φ} (hcall : e.call = .snapshot r)
    (hstale : r.claim.sequence ≤ s.journal.sequence) : t.journal = s.journal := by
  obtain ⟨-, -, rfl⟩ := h
  have hhandle : s.journal.handle e.barrier e.now e.call = s.journal := by
    rw [hcall, handle, applyBackground, if_pos hstale]
    rfl
  simp only [next, hhandle, ite_self]

/-- **Background snapshots do not come back.** In every run the mark is at most
the clock and an owner is stored with a snapshot only. A step does not lower the
mark, and below `u64::MAX` it raises the revision by one exactly where it
changes the stored snapshot. A call that clears at sequence `c` leaves no
snapshot, and from then on a claim whose sequence is at most `c` and at most the
clock at the clear changes nothing. -/
theorem background_never_back (h : Run Step (initial clock : BackgroundState κ φ) tr s)
    (hstep : s.Step e t) :
    s.journal.sequence ≤ s.clock ∧ s.journal.owner.isSome = s.journal.snapshot.isSome ∧
    s.journal.sequence ≤ t.journal.sequence ∧ (s.journal.revision < revisionMax →
      t.journal.revision = s.journal.revision + 1 ∧ t.journal.snapshot ≠ s.journal.snapshot ∨
      t.journal.revision = s.journal.revision ∧ t.journal.snapshot = s.journal.snapshot) ∧
    ∀ c, e.persisted → s.journal.clearsAt e.barrier e.call = some c → t.journal.snapshot = none ∧
      ∀ later u e' v, Run Step t later u → Step u e' v → ∀ r, e'.call = .snapshot r →
        r.claim.sequence ≤ min c e.now → v.journal = u.journal := by
  have hs := marked_of_run h
  have hmoves := hstep.moves hs
  refine ⟨hs.mark, hs.coherent.owner, (hmoves.mark_le (hs.mark.trans hstep.clock_le)).1,
    hmoves.revision hs.coherent, fun c hpersisted hclears => ?_⟩
  have ht := hs.step hstep
  have hadopted : e.adopted := by
    unfold BackgroundEvent.adopted
    split <;> first | rfl | exact hpersisted
  have hjournal : t.journal =
    ⟨none, none, max s.journal.sequence (min c e.now), s.journal.nextRevision⟩ := by
    obtain ⟨-, -, rfl⟩ := hstep
    rw [next, hadopted, if_pos rfl]
    exact handle_clears hs.coherent hclears
  refine ⟨by rw [hjournal], fun later u e' v hlater hstep' r hcall hle => hstep'.stale hcall ?_⟩
  have hmark : min c e.now ≤ t.journal.sequence := by
    rw [hjournal]
    exact le_max_right _ _
  exact hle.trans (hmark.trans (mark_of_run ht hlater).2)

end BackgroundState

end Calls

/-! A snapshot of one process, a report of another one accepted at clock 12, and
the first process again with a claim it took before. -/

namespace BackgroundSample

def claim (pid sequence : ℕ) : ProcessClaim := ⟨pid, 7, sequence⟩

def snapshot (sequence now : ℕ) : BackgroundEvent Unit Unit :=
  ⟨.snapshot ⟨claim 40 sequence, [⟨"task-1", (), ()⟩], 1000⟩, now, now, true⟩

def report : BackgroundEvent Unit Unit := ⟨.report (claim 41 3) none true true false, 12, 13, true⟩

def stored : BackgroundState Unit Unit := (BackgroundState.initial 10).next (snapshot 5 10)

theorem background_never_back_sample :
    stored.journal.sequence = 5 ∧ stored.journal.clearsAt 12 report.call = some 12 ∧
    (stored.next report).journal.snapshot = none ∧
    ((stored.next report).next (snapshot 11 20)).journal = (stored.next report).journal ∧
    ((stored.next report).next (snapshot 14 20)).journal.snapshot ≠ none := by
  have hrun : Run BackgroundState.Step
    (BackgroundState.initial 10 : BackgroundState Unit Unit) [snapshot 5 10] stored :=
    .single ⟨by decide, by decide, rfl⟩
  have hreport : stored.Step report (stored.next report) := ⟨by decide, by decide, rfl⟩
  obtain ⟨-, -, -, -, hclears⟩ := BackgroundState.background_never_back hrun hreport
  obtain ⟨hnone, hstale⟩ := hclears 12 rfl (by decide)
  have hlate : (stored.next report).Step (snapshot 11 20)
    ((stored.next report).next (snapshot 11 20)) :=
    ⟨by decide, by decide, rfl⟩
  exact ⟨by decide, by decide, hnone, hstale [] _ _ _ (.refl _) hlate _ rfl (by decide), by decide⟩

end BackgroundSample

end Pohunek.Subagents
