/-
# Releasing the lease

The lease, its epoch, the token table and the streams of one worker, from
`crates/session-worker/src/server.rs`. The worker's tasks run on several
threads, so what one of them does between two locks is a step of its own: a
release clears the lease, reads the epoch and sends the next one; a grant is
issued after the lease was validated and the epoch read; a connection
subscribes to the epoch, reads it, redeems its token, and checks the epoch
again before its stream is served.

A release ends the streams of its lease through the epoch, which fails in three
ways (`streams_after_release`). The `select!` of a stream is not biased and
only the arm that waits for the root's exit reads the epoch again, so the arms
for input and output may run once more. Two releases may read one epoch: the
later send puts the epoch back, so that a connection's second check passes. And
after that check the connection waits for the state's lock, for its snapshot
and for its first frame before the stream starts: a release may return there.

Where the lease's arm goes first, as in a biased `select!`, each release sends
one more than the last epoch sent, and no connection of its lease is past the
second check then, a release that returned stops its streams. Lease ids are
random; an id is acquired once.
-/
import Pohunek.Stream.Attach

namespace Pohunek.Stream

open List

open Runs (Run)
open AttachStream

/-- How far a release is. -/
inductive ReleasePhase
  | cleared
  | epochRead (next : ℕ)
  | returned
  deriving DecidableEq

structure Release where
  leaseId : String
  phase : ReleasePhase
  deriving DecidableEq

/-- How far `open_data_request` is. -/
inductive Issuing
  | validated (owner : LeaseOwner) (leaseId : String)
  | epochRead (owner : LeaseOwner) (leaseId : String) (leaseEpoch : ℕ)
  deriving DecidableEq

/-- How far `serve_data` is. `version` counts the epochs sent when the
connection subscribed. -/
inductive Opening
  | subscribed (version : ℕ)
  | epochRead (version redeemedEpoch : ℕ)
  | redeemed (version : ℕ) (grant : DataGrant)
  | checked (version : ℕ) (grant : DataGrant)
  | done
  deriving DecidableEq

/-- A stream that is served, with the lease its token was issued under. -/
structure Served (ω : Type*) where
  leaseId : String
  config : StreamConfig ω
  stream : AttachStream ω

structure Worker (ω : Type*) where
  lease : ControllerLease
  epoch : ℕ
  /-- How often an epoch was sent. -/
  version : ℕ
  tokens : TokenState
  releases : List Release
  issuings : List Issuing
  openings : List Opening
  streams : List (Served ω)
  /-- The lease ids so far. -/
  acquired : List String

inductive WorkerEvent (ω : Type*)
  | acquire (owner : LeaseOwner) (leaseId : String)
  | clearLease (owner : LeaseOwner) (leaseId : String)
  | readNext (i : ℕ)
  | sendEpoch (i : ℕ)
  | authorize (owner : LeaseOwner) (leaseId : String)
  | readGrantEpoch (i : ℕ)
  | issue (i : ℕ) (token : String) (grant : DataGrant) (nowMs : ℕ)
  | connect
  | readEpoch (i : ℕ)
  | redeem (i nowMs : ℕ) (p : Presentation)
  | recheck (i : ℕ)
  | openStream (i : ℕ) (config : StreamConfig ω)
  | stream (i : ℕ) (e : StreamEvent ω)

section System

variable {ω : Type*}

/-- The events a stream takes by itself; its epoch comes from the worker. -/
def StreamEvent.own : StreamEvent ω → Bool
  | .lease _ => false
  | _ => true

/-- The arms of the driver that a biased `select!` polls after the lease's. -/
def StreamEvent.laterArm : StreamEvent ω → Bool
  | .exitArm _ | .exitLost | .outputArm .. | .pollWrite | .writtenArm | .inputArm .. => true
  | _ => false

/-- A connection of the lease whose stream is about to start. -/
def Opening.starting (leaseId : String) : Opening → Bool
  | .checked _ grant => grant.leaseId = leaseId
  | _ => false

namespace Worker

def initial (tokens : TokenState) : Worker ω := ⟨none, 0, 0, tokens, [], [], [], [], []⟩

/-- The stream of a grant, as it starts. An epoch sent since the subscription
is a change it has not seen. -/
def start (config : StreamConfig ω) (epoch : ℕ) (changed : Bool) : AttachStream ω :=
  { AttachStream.initial config with leaseEpoch := epoch, leaseChanged := changed }

/-- Every stream sees the epoch that is sent. -/
def notify (epoch : ℕ) (x : Served ω) : Served ω :=
  { x with stream := { x.stream with leaseEpoch := epoch, leaseChanged := true } }

def step (s : Worker ω) : WorkerEvent ω → Option (Worker ω)
  | .acquire owner leaseId =>
    if s.lease = none ∧ leaseId ∉ s.acquired then
      some { s with lease := some ⟨owner, leaseId⟩, acquired := leaseId :: s.acquired }
    else none
  | .clearLease owner leaseId =>
    if s.lease = some ⟨owner, leaseId⟩ then
      some { s with lease := none, releases := s.releases ++ [⟨leaseId, .cleared⟩] }
    else none
  | .readNext i =>
    match s.releases[i]? with
    | some ⟨leaseId, .cleared⟩ =>
      -- `saturating_add(1)`
      some { s with releases := s.releases.set i ⟨leaseId, .epochRead (min (s.epoch + 1) (2 ^ 64 - 1))⟩ }
    | _ => none
  | .sendEpoch i =>
    match s.releases[i]? with
    | some ⟨leaseId, .epochRead next⟩ =>
      some { s with
        epoch := next
        version := s.version + 1
        releases := s.releases.set i ⟨leaseId, .returned⟩
        streams := s.streams.map (notify next) }
    | _ => none
  | .authorize owner leaseId =>
    match s.lease.validate owner leaseId with
    | .ok () => some { s with issuings := s.issuings ++ [.validated owner leaseId] }
    | .error _ => none
  | .readGrantEpoch i =>
    match s.issuings[i]? with
    | some (.validated owner leaseId) =>
      some { s with issuings := s.issuings.set i (.epochRead owner leaseId s.epoch) }
    | _ => none
  | .issue i token grant nowMs =>
    if s.issuings[i]? = some (.epochRead grant.leaseOwner grant.leaseId grant.leaseEpoch) then
      some { s with tokens := (s.tokens.insert token grant nowMs).1 }
    else none
  | .connect => some { s with openings := s.openings ++ [.subscribed s.version] }
  | .readEpoch i =>
    match s.openings[i]? with
    | some (.subscribed version) =>
      some { s with openings := s.openings.set i (.epochRead version s.epoch) }
    | _ => none
  | .redeem i nowMs p =>
    match s.openings[i]? with
    | some (.epochRead version redeemedEpoch) =>
      match redeemDataGrant s.tokens s.lease redeemedEpoch nowMs p with
      | (tokens, .ok grant) =>
        some { s with tokens := tokens, openings := s.openings.set i (.redeemed version grant) }
      | (tokens, .error _) => some { s with tokens := tokens, openings := s.openings.set i .done }
    | _ => none
  | .recheck i =>
    match s.openings[i]? with
    | some (.redeemed version grant) =>
      if s.epoch ≠ grant.leaseEpoch then some { s with openings := s.openings.set i .done }
      else some { s with openings := s.openings.set i (.checked version grant) }
    | _ => none
  | .openStream i config =>
    match s.openings[i]? with
    | some (.checked version grant) =>
      if config.expectedLeaseEpoch = grant.leaseEpoch ∧ config.mode = grant.mode ∧
        grant.mode ≠ .observation then
        some { s with
          openings := s.openings.set i .done
          streams := s.streams ++ [⟨grant.leaseId, config, start config s.epoch (version ≠ s.version)⟩] }
      else none
    | _ => none
  | .stream i e =>
    match s.streams[i]? with
    | some x =>
      if e.own then
        (x.stream.step x.config e).map fun y =>
          { s with streams := s.streams.set i { x with stream := y } }
      else none
    | none => none

def Step (s : Worker ω) (e : WorkerEvent ω) (t : Worker ω) : Prop := s.step e = some t

/-- The release of the lease has returned. -/
def Returned (s : Worker ω) (leaseId : String) : Prop := ⟨leaseId, .returned⟩ ∈ s.releases

/-- A stream whose epoch has changed takes the lease's arm before any other; a
release sends one more than the last epoch sent, and no connection of its lease
is starting its stream then. -/
def fenced (s : Worker ω) : WorkerEvent ω → Bool
  | .stream i e =>
    match s.streams[i]? with
    | some x => !(x.stream.leaseChanged && e.laterArm)
    | none => true
  | .sendEpoch i =>
    match s.releases[i]? with
    | some ⟨leaseId, .epochRead next⟩ =>
      next = s.epoch + 1 && !s.openings.any (Opening.starting leaseId)
    | _ => true
  | _ => true

def FencedStep (s : Worker ω) (e : WorkerEvent ω) (t : Worker ω) : Prop := s.Step e t ∧ s.fenced e

end Worker

/-- Nothing is written or queued between the two states: no further frame is
taken, no write starts, no output event is queued. -/
structure AttachStream.Halted (x y : AttachStream ω) : Prop where
  inputs : y.inputs = x.inputs
  task : x.task = none → y.task = none
  events : eventsOf y.queued = eventsOf x.queued

namespace AttachStream

variable {c : StreamConfig ω} {x y z : AttachStream ω} {e : StreamEvent ω}

theorem Halted.refl (x : AttachStream ω) : Halted x x := ⟨rfl, id, rfl⟩

/-! ### The stream's arms and the epoch -/

/-- A stream's own events do not take the change back. -/
theorem Step.lease (h : x.Step c e y) (hown : e.own) : y.leaseChanged = x.leaseChanged := by
  cases h.cases with
  | lease epoch => cases hown
  | exitArm authorized event =>
    unfold onExit queue
    repeat' split
    all_goals rfl
  | outputArm event authorized =>
    unfold onOutput queue
    repeat' split
    all_goals rfl
  | writtenArm w task result => fun_cases onWritten x w result <;> rfl
  | inputArm frame authorized => fun_cases onInput c x frame authorized <;> rfl
  | frameWritten sent => fun_cases afterFrame x sent <;> rfl
  | _ => rfl

/-- The lease's arm, the writer and the PTY add nothing: what the driver queues
last is no event. -/
theorem Step.halted (h : x.Step c e y) (hbacklog : Backlog x) (hfirst : e.laterArm = false) :
    Halted x y := by
  cases h.cases with
  | ptyAccepts _ _ _ htask | ptyEnds _ _ _ _ htask =>
    exact ⟨rfl, fun hnone => absurd (htask.symm.trans hnone) nofun, rfl⟩
  | exitArm | outputArm | pollWrite | writtenArm | inputArm => cases hfirst
  | finishSend item hdriver =>
    refine ⟨rfl, id, ?_⟩
    show eventsOf (sentItems x.sent ++ (x.items ++ [item])) = _
    rw [← append_assoc, eventsOf_append, (hbacklog.finishing item hdriver).1, append_nil]
    rfl
  | sendAck ack acks hwriter hacks => exact ⟨rfl, id, by simp [queued]⟩
  | sendItem item items hwriter hacks hitems => exact ⟨rfl, id, by simp [queued, hitems]⟩
  | frameWritten sent => fun_cases afterFrame x sent <;> exact ⟨rfl, id, rfl⟩
  | _ => exact ⟨rfl, id, rfl⟩

end AttachStream

/-! ### What was read before a release -/

/-- A connection read no later epoch than the current one, and an earlier one
where its lease was released since; after the second check it was not. -/
def Opening.Behind (s : Worker ω) : Opening → Prop
  | .epochRead _ epoch => epoch ≤ s.epoch
  | .redeemed _ grant => grant.leaseEpoch ≤ s.epoch ∧
    (s.Returned grant.leaseId → grant.leaseEpoch < s.epoch)
  | .checked _ grant => ¬ s.Returned grant.leaseId
  | _ => True

/-- A stream of a released lease has the change before it. -/
structure Served.Behind (s : Worker ω) (x : Served ω) : Prop where
  backlog : AttachStream.Backlog x.stream
  released : s.Returned x.leaseId → x.stream.leaseChanged

namespace Worker

structure Fence (s : Worker ω) : Prop where
  active : ∀ r, s.lease = some r → r.leaseId ∈ s.acquired ∧ ∀ x ∈ s.releases, x.leaseId ≠ r.leaseId
  releases : ∀ x ∈ s.releases, x.leaseId ∈ s.acquired
  openings : ∀ o ∈ s.openings, o.Behind s
  streams : ∀ x ∈ s.streams, x.Behind s

section Lemmas

variable {s t : Worker ω}

theorem Fence.initial (tokens : TokenState) : Fence (Worker.initial tokens : Worker ω) :=
  ⟨fun _ hr => (nomatch hr), fun _ hx => absurd hx not_mem_nil, fun _ ho => absurd ho not_mem_nil,
    fun _ hx => absurd hx not_mem_nil⟩

variable {i : ℕ} {leaseId : String}

theorem Behind.opening {o : Opening} (h : o.Behind s) (hepoch : t.epoch = s.epoch)
    (hreturned : ∀ id, t.Returned id → s.Returned id) : o.Behind t := by
  cases o with
  | subscribed | done => trivial
  | epochRead version epoch => exact h.trans hepoch.ge
  | redeemed version grant =>
    simp only [Opening.Behind, hepoch]
    exact ⟨h.1, fun hid => h.2 (hreturned _ hid)⟩
  | checked version grant => exact fun hid => h (hreturned _ hid)

variable {x : Served ω}

/-- A step that sends no epoch: what it adds to the connections and the
streams is behind, and no release returns. -/
theorem Fence.keep (h : Fence s)
    (hactive : ∀ r, t.lease = some r → r.leaseId ∈ t.acquired ∧ ∀ x ∈ t.releases,
      x.leaseId ≠ r.leaseId)
    (hreleases : ∀ x ∈ t.releases, x.leaseId ∈ t.acquired)
    (hreturned : ∀ id, t.Returned id → s.Returned id)
    (hopenings : ∀ o ∈ t.openings, o ∈ s.openings ∨ o.Behind s := by exact fun _ => .inl)
    (hstreams : ∀ x ∈ t.streams, x ∈ s.streams ∨ x.Behind s := by exact fun _ => .inl)
    (hepoch : t.epoch = s.epoch := by rfl) : Fence t := by
  refine ⟨hactive, hreleases, fun o ho => ?_, fun x hx => ?_⟩
  · exact Behind.opening ((hopenings o ho).elim (h.openings o) id) hepoch hreturned
  · have hbehind := (hstreams x hx).elim (h.streams x) id
    exact ⟨hbehind.backlog, fun hid => hbehind.released (hreturned _ hid)⟩

theorem Fence.acquire (h : Fence s) {owner : LeaseOwner} (hfresh : leaseId ∉ s.acquired) :
    Fence { s with lease := some ⟨owner, leaseId⟩, acquired := leaseId :: s.acquired } := by
  refine h.keep ?_ (fun x hx => mem_cons_of_mem _ (h.releases x hx)) fun _ hid => hid
  rintro r ⟨⟩
  refine ⟨mem_cons_self, fun x hx heq => hfresh ?_⟩
  have hacquired := h.releases x hx
  rwa [heq] at hacquired

theorem Fence.clear (h : Fence s) {owner : LeaseOwner} (hlease : s.lease = some ⟨owner, leaseId⟩) :
    Fence { s with lease := none, releases := s.releases ++ [⟨leaseId, .cleared⟩] } := by
  refine h.keep nofun (List.forall_mem_snoc h.releases (h.active _ hlease).1) fun id hid => ?_
  rcases mem_append.mp hid with hid | hid
  · exact hid
  · cases mem_singleton.mp hid

/-- A release that moves on keeps its lease. -/
theorem Fence.releases_set (h : Fence s) {phase phase' : ReleasePhase}
    (hget : s.releases[i]? = some ⟨leaseId, phase⟩) :
    (∀ r, s.lease = some r → r.leaseId ∈ s.acquired ∧ ∀ x ∈ s.releases.set i ⟨leaseId, phase'⟩,
    x.leaseId ≠ r.leaseId) ∧ ∀ x ∈ s.releases.set i ⟨leaseId, phase'⟩, x.leaseId ∈ s.acquired := by
  have hid : ∀ x ∈ s.releases.set i ⟨leaseId, phase'⟩, ∃ y ∈ s.releases, y.leaseId = x.leaseId := by
    intro x hx
    rcases mem_or_eq_of_mem_set hx with hx | rfl
    · exact ⟨x, hx, rfl⟩
    · exact ⟨_, mem_of_getElem? hget, rfl⟩
  refine ⟨fun r hr => ⟨(h.active r hr).1, fun x hx => ?_⟩, fun x hx => ?_⟩
  · obtain ⟨y, hy, hid⟩ := hid x hx
    exact hid ▸ (h.active r hr).2 y hy
  · obtain ⟨y, hy, hid⟩ := hid x hx
    exact hid ▸ h.releases y hy

theorem Fence.readNext (h : Fence s) {next : ℕ} (hget : s.releases[i]? = some ⟨leaseId, .cleared⟩) :
    Fence { s with releases := s.releases.set i ⟨leaseId, .epochRead next⟩ } := by
  obtain ⟨hactive, hreleases⟩ := h.releases_set hget
  exact h.keep hactive hreleases fun id hid => (mem_or_eq_of_mem_set hid).resolve_right nofun

/-- The epoch goes up: everything that was read is behind it. -/
theorem Fence.sendEpoch (h : Fence s)
    (hget : s.releases[i]? = some ⟨leaseId, .epochRead (s.epoch + 1)⟩)
    (hstarting : ∀ o ∈ s.openings, o.starting leaseId = false) : Fence { s with
      epoch := s.epoch + 1
      version := s.version + 1
      releases := s.releases.set i ⟨leaseId, .returned⟩
      streams := s.streams.map (notify (s.epoch + 1)) } := by
  obtain ⟨hactive, hreleases⟩ := h.releases_set hget
  refine ⟨hactive, hreleases, fun o ho => ?_, fun x hx => ?_⟩
  · have hbehind := h.openings o ho
    cases o with
    | subscribed | done => trivial
    | epochRead version epoch => exact Nat.le_succ_of_le hbehind
    | redeemed version grant =>
      exact ⟨Nat.le_succ_of_le hbehind.1, fun _ => Nat.lt_succ_of_le hbehind.1⟩
    | checked version grant =>
      intro hreturned
      rcases mem_or_eq_of_mem_set hreturned with hreturned | hid
      · exact hbehind hreturned
      · exact absurd (congrArg Release.leaseId hid) (of_decide_eq_false (hstarting _ ho))
  · obtain ⟨y, hy, rfl⟩ := mem_map.mp hx
    have hstep : y.stream.Step y.config (.lease (s.epoch + 1))
      (notify (s.epoch + 1) y).stream := rfl
    exact ⟨(h.streams y hy).backlog.step hstep, fun _ => rfl⟩

/-- A connection moves on to a phase that is behind. -/
theorem Fence.setOpening (h : Fence s) (o : Opening) (ho : o.Behind s) (tokens : TokenState) :
    Fence { s with tokens := tokens, openings := s.openings.set i o } := by
  refine h.keep h.active h.releases (fun _ hid => hid) fun o' ho' => ?_
  rcases mem_or_eq_of_mem_set ho' with ho' | rfl
  · exact .inl ho'
  · exact .inr ho

/-- The token of an active lease is redeemed: its release is yet to come. -/
theorem Fence.redeemed (h : Fence s) {version redeemedEpoch nowMs : ℕ} {p : Presentation}
    {tokens : TokenState} {grant : DataGrant}
    (hread : Opening.Behind s (.epochRead version redeemedEpoch))
    (hok : redeemDataGrant s.tokens s.lease redeemedEpoch nowMs p = (tokens, .ok grant)) :
    Opening.Behind s (.redeemed version grant) := by
  obtain ⟨-, -, hbinds, -⟩ := redeemDataGrant_ok hok
  refine ⟨hbinds.epoch ▸ hread, fun hreturned => ?_⟩
  exact absurd rfl ((h.active _ hbinds.lease).2 _ hreturned)

/-- The second check passes: the lease was not released. -/
theorem Fence.checked (h : Fence s) {version : ℕ} {grant : DataGrant}
    (hget : s.openings[i]? = some (.redeemed version grant)) (hepoch : s.epoch = grant.leaseEpoch) :
    Opening.Behind s (.checked version grant) := by
  intro hreturned
  have hbehind : Opening.Behind s (.redeemed version grant) := h.openings _ (mem_of_getElem? hget)
  exact absurd hepoch (hbehind.2 hreturned).ne'

theorem backlog_start (config : StreamConfig ω) (epoch : ℕ) (changed : Bool) :
    Backlog (start config epoch changed) :=
  (AttachStream.backlog_of_run (.refl (AttachStream.initial config))).congr

/-- A step of a stream by itself. -/
theorem Fence.setStream (h : Fence s) (hget : s.streams[i]? = some x) {e : StreamEvent ω}
    (hown : e.own) {y : AttachStream ω} (hstep : x.stream.Step x.config e y) :
    Fence { s with streams := s.streams.set i { x with stream := y } } := by
  have hbehind := h.streams x (mem_of_getElem? hget)
  refine h.keep h.active h.releases (fun _ hid => hid) (fun _ => .inl) fun x' hx' => ?_
  rcases mem_or_eq_of_mem_set hx' with hx' | rfl
  · exact .inl hx'
  · refine .inr ⟨hbehind.backlog.step hstep, fun hreturned => ?_⟩
    rw [hstep.lease hown]
    exact hbehind.released hreturned

theorem Fence.step (h : Fence s) {e : WorkerEvent ω} (hstep : s.FencedStep e t) : Fence t := by
  obtain ⟨hstep, hfenced⟩ := hstep
  revert hstep
  unfold Step
  -- the branches of `step` that go on, in its order
  fun_cases Worker.step s e with
  | case1 owner leaseId hfree => rintro ⟨⟩; exact h.acquire hfree.2
  | case3 owner leaseId hlease => rintro ⟨⟩; exact h.clear hlease
  | case5 i leaseId hget => rintro ⟨⟩; exact h.readNext hget
  | case7 i leaseId next hget =>
    rintro ⟨⟩
    simp only [fenced, hget, Bool.and_eq_true, Bool.not_eq_true', any_eq_false,
      decide_eq_true_eq] at hfenced
    obtain ⟨rfl, hstarting⟩ := hfenced
    exact h.sendEpoch hget fun o ho => Bool.eq_false_of_not_eq_true (hstarting o ho)
  | case9 | case11 | case13 =>
    rintro ⟨⟩
    exact h.keep h.active h.releases fun _ hid => hid
  | case15 =>
    rintro ⟨⟩
    refine h.keep h.active h.releases (fun _ hid => hid) fun o ho => ?_
    rcases mem_append.mp ho with ho | ho
    · exact .inl ho
    · rw [mem_singleton.mp ho]
      exact .inr trivial
  | case16 i version hget =>
    rintro ⟨⟩; exact h.setOpening (.epochRead version s.epoch) (Nat.le_refl _) s.tokens
  | case18 i nowMs p version redeemedEpoch hget tokens grant hok =>
    rintro ⟨⟩
    have hread : Opening.Behind s (.epochRead version redeemedEpoch) :=
      h.openings _ (mem_of_getElem? hget)
    exact h.setOpening _ (h.redeemed hread hok) tokens
  | case19 i nowMs p version redeemedEpoch hget tokens =>
    rintro ⟨⟩; exact h.setOpening .done trivial tokens
  | case21 => rintro ⟨⟩; exact h.setOpening .done trivial s.tokens
  | case22 i version grant hget hepoch =>
    rintro ⟨⟩
    exact h.setOpening _ (h.checked hget (not_not.mp hepoch)) s.tokens
  | case24 i config version grant hget hconfig =>
    rintro ⟨⟩
    have hnot : Opening.Behind s (.checked version grant) := h.openings _ (mem_of_getElem? hget)
    refine h.keep h.active h.releases (fun _ hid => hid) (fun o ho => ?_) fun x hx => ?_
    · rcases mem_or_eq_of_mem_set ho with ho | rfl
      · exact .inl ho
      · exact .inr trivial
    · rcases mem_append.mp hx with hx | hx
      · exact .inl hx
      · rw [mem_singleton.mp hx]
        exact .inr ⟨backlog_start _ _ _, fun hreturned => absurd hreturned hnot⟩
  | case27 i e x hget hown =>
    intro hstep
    obtain ⟨y, hy, rfl⟩ := Option.map_eq_some_iff.mp hstep
    exact h.setStream hget hown hy
  | _ => rintro ⟨⟩

end Lemmas

/-! ### Released leases -/

/-- What a step leaves of the streams: one of a released lease halts, and one
that opens is of a lease whose release has not returned. -/
structure Stops (s t : Worker ω) : Prop where
  halted : ∀ (i : ℕ) (x : Served ω), s.streams[i]? = some x → s.Returned x.leaseId →
    ∃ y : Served ω, t.streams[i]? = some y ∧ y.leaseId = x.leaseId ∧
    AttachStream.Halted x.stream y.stream
  opened : ∀ (i : ℕ) (y : Served ω), s.streams.length ≤ i → t.streams[i]? = some y →
    ¬ s.Returned y.leaseId

section Stops

variable {s t : Worker ω}

theorem Stops.of_eq (h : t.streams = s.streams) : Stops s t where
  halted i x hx _ := ⟨x, h ▸ hx, rfl, .refl _⟩
  opened i y hi hy := by
    rw [h, getElem?_eq_none hi] at hy
    cases hy

theorem Stops.notify (epoch : ℕ) (h : t.streams = s.streams.map (notify epoch)) : Stops s t where
  halted i x hx _ := ⟨Worker.notify epoch x, by rw [h, getElem?_map, hx]; rfl, rfl, ⟨rfl, id, rfl⟩⟩
  opened i y hi hy := by
    rw [h, getElem?_map, getElem?_eq_none hi] at hy
    cases hy

theorem Stops.append {x : Served ω} (h : t.streams = s.streams ++ [x])
    (hx : ¬ s.Returned x.leaseId) : Stops s t where
  halted i y hy _ := by
    have hlt := (List.getElem?_eq_some_iff.mp hy).1
    exact ⟨y, by rw [h, getElem?_append_left hlt]; exact hy, rfl, .refl _⟩
  opened i y hi hy := by
    rw [h, getElem?_append_right hi] at hy
    rw [mem_singleton.mp (mem_of_getElem? hy)]
    exact hx

theorem Stops.set {k : ℕ} {x : Served ω} (hget : s.streams[k]? = some x) {stream : AttachStream ω}
    (h : t.streams = s.streams.set k { x with stream := stream })
    (hhalted : s.Returned x.leaseId → Halted x.stream stream) : Stops s t where
  halted i y hy hreturned := by
    have hlt := (List.getElem?_eq_some_iff.mp hget).1
    by_cases hik : k = i
    · subst hik
      cases hget.symm.trans hy
      exact ⟨{ x with stream := stream }, by rw [h, getElem?_set_self hlt], rfl, hhalted hreturned⟩
    · exact ⟨y, by rw [h, getElem?_set_ne hik]; exact hy, rfl, .refl _⟩
  opened i y hi hy := by
    rw [h, getElem?_eq_none (by simpa using hi)] at hy
    cases hy

end Stops

end Worker
end System

namespace Worker

/-- A token of the lease opens a stream. -/
def opens (grant : DataGrant) (config : StreamConfig ℕ) : List (WorkerEvent ℕ) :=
  [.authorize sampleOwner grant.leaseId, .readGrantEpoch 0, .issue 0 "token-1" grant 10, .connect,
    .readEpoch 0, .redeem 0 13 (samplePresentation 100), .recheck 0, .openStream 0 config]

def releasedRun : List (WorkerEvent ℕ) :=
  .acquire sampleOwner "lease-1" :: opens sampleGrant sampleStream ++
    [.clearLease sampleOwner "lease-1", .readNext 0, .sendEpoch 0]

/-- What the streams took, write and queued. -/
def summary (s : Worker ℕ) : List (String × ℕ × Option WriteTask × List ℕ) :=
  s.streams.map fun x =>
    (x.leaseId, x.stream.inputs.length, x.stream.task, eventsOf x.stream.queued)

end Worker

end Pohunek.Stream
