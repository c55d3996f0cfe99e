/-
# Data grants

`TokenState`, `redeem_data_grant` and `ControllerLease` of
`crates/session-worker`: a controller asks for a data stream over its control
connection and gets a token; whoever connects with the token opens the stream.

The token table is behind one lock, so a call is one step on it. What a call
reads before it takes the lock are its arguments, with any values: the clock,
the lease and its epoch, the peer the kernel reports. The readings of two calls
need not be in the order of their steps.

A token is in the table from its issue to the first attempt of a peer that
passes the owner check. So a redemption has an issue before it with no
redemption of the token in between (`grants_one_shot`).
-/
import Pohunek.Lib.Run

namespace Pohunek.Stream

open Std.ExtTreeMap Option

open Runs (Run Label)

structure LeaseOwner where
  daemonId : String
  peerPid : ℕ
  peerStartIdentity : String
  deriving DecidableEq

structure LeaseRecord where
  owner : LeaseOwner
  leaseId : String
  deriving DecidableEq

inductive LeaseError
  | busy
  | mismatch
  deriving DecidableEq

/-- `ControllerLease`: the active lease. -/
abbrev ControllerLease := Option LeaseRecord

def ControllerLease.validate (lease : ControllerLease) (owner : LeaseOwner) (leaseId : String) :
    Except LeaseError Unit :=
  if lease = some ⟨owner, leaseId⟩ then .ok () else .error .mismatch

inductive StreamMode
  | attach
  | detector
  | observation
  deriving DecidableEq

structure AttachStart where
  dimensions : Option (ℕ × ℕ)
  deriving DecidableEq

structure ObservationGrant where
  maxBytes : ℕ
  waitMs : ℕ
  deriving DecidableEq

structure DataGrant where
  leaseOwner : LeaseOwner
  leaseId : String
  leaseEpoch : ℕ
  version : ℕ
  expiresAtMs : ℕ
  workerInstanceId : String
  streamId : String
  mode : StreamMode
  afterOffset : Option ℕ
  attach : Option AttachStart
  observation : Option ObservationGrant
  deriving DecidableEq

/-- The reasons a peer is refused for here. -/
inductive RejectReason
  | peerUnavailable
  | peerForeignOwner
  | peerPidUnavailable
  | peerChanged
  | peerExited
  | leaseOwnerMismatch
  deriving DecidableEq

inductive WorkerError
  | protocol (message : String)
  | peerIdentity (reason : RejectReason)
  deriving DecidableEq

inductive TokenStateError
  | alreadyExpired
  | duplicate
  | full (maximum : ℕ)
  deriving DecidableEq

/-- The peer of a connection: the identity it was captured with, and what
reading the kernel again says. -/
structure PeerContext where
  pid : ℕ
  startIdentity : String
  reverify : Except RejectReason Unit

/-- What a connection presents: the token and its open frame. -/
structure Presentation where
  token : String
  version : ℕ
  workerInstanceId : String
  streamId : String
  mode : StreamMode
  afterOffset : Option ℕ
  attach : Option AttachStart
  peer : PeerContext

structure TokenState where
  grants : Std.ExtTreeMap String DataGrant
  maximum : ℕ

def dataTokenCapacity : ℕ := 4096

namespace TokenState

def new : TokenState := ⟨∅, dataTokenCapacity⟩

def withMaximum (maximum : ℕ) : TokenState := ⟨∅, maximum⟩

def purgeExpired (s : TokenState) (nowMs : ℕ) : TokenState :=
  { s with grants := s.grants.filter fun _ grant => nowMs < grant.expiresAtMs }

def insert (s : TokenState) (token : String) (grant : DataGrant) (nowMs : ℕ) :
    TokenState × Except TokenStateError Unit :=
  if grant.expiresAtMs ≤ nowMs then (s, .error .alreadyExpired)
  else
    let s := s.purgeExpired nowMs
    if s.grants.contains token then (s, .error .duplicate)
    else if s.maximum ≤ s.grants.size then (s, .error (.full s.maximum))
    else ({ s with grants := s.grants.insert token grant }, .ok ())

def grantOwner (s : TokenState) (token : String) (nowMs : ℕ) : TokenState × Option LeaseOwner :=
  let s := s.purgeExpired nowMs
  (s, s.grants[token]?.map (·.leaseOwner))

def unusable : WorkerError := .protocol "data token is invalid, expired, or already used"

/-- The grant goes, whatever `validate` says. -/
def redeem (s : TokenState) (token : String) (nowMs : ℕ)
    (validate : DataGrant → Except WorkerError Unit) : TokenState × Except WorkerError DataGrant :=
  let s := s.purgeExpired nowMs
  match s.grants[token]? with
  | none => ({ s with grants := s.grants.erase token }, .error unusable)
  | some grant => ({ s with grants := s.grants.erase token }, (validate grant).map fun _ => grant)

end TokenState

/-- The peer is the process that acquired the lease. -/
def PeerContext.checkOwner (peer : PeerContext) (owner : LeaseOwner) : Except RejectReason Unit :=
  match peer.reverify with
  | .error reason => .error reason
  | .ok () =>
    if owner.peerPid = peer.pid ∧ owner.peerStartIdentity = peer.startIdentity then .ok ()
      else .error .leaseOwnerMismatch

/-- The check of a grant against the lease and the open frame. -/
def DataGrant.check (lease : ControllerLease) (currentLeaseEpoch : ℕ) (p : Presentation)
    (grant : DataGrant) : Except WorkerError Unit :=
  match lease.validate grant.leaseOwner grant.leaseId with
  | .error _ => .error (.protocol "data token lease is no longer active")
  | .ok () =>
    if grant.leaseEpoch ≠ currentLeaseEpoch then
      .error (.protocol "data token lease generation is stale")
    else if grant.version ≠ p.version ∨ grant.workerInstanceId ≠ p.workerInstanceId ∨
      grant.streamId ≠ p.streamId ∨
        grant.mode ≠ p.mode ∨ grant.afterOffset ≠ p.afterOffset ∨ grant.attach ≠ p.attach then
      .error (.protocol "data open frame does not match its grant")
    else .ok ()

def redeemDataGrant (s : TokenState) (lease : ControllerLease) (currentLeaseEpoch nowMs : ℕ)
    (p : Presentation) : TokenState × Except WorkerError DataGrant :=
  let (s, owner) := s.grantOwner p.token nowMs
  match owner.map p.peer.checkOwner with
  | some (.error reason) => (s, .error (.peerIdentity reason))
  | _ => s.redeem p.token nowMs (DataGrant.check lease currentLeaseEpoch p)

/-! ### Runs -/

inductive TokenCall
  | issue (token : String) (grant : DataGrant) (nowMs : ℕ)
  | redeem (lease : ControllerLease) (currentLeaseEpoch nowMs : ℕ) (p : Presentation)

inductive TokenAnswer
  | issued (result : Except TokenStateError Unit)
  | redeemed (result : Except WorkerError DataGrant)
  deriving DecidableEq

def TokenState.exec (s : TokenState) : TokenCall → TokenState × TokenAnswer
  | .issue token grant nowMs => (s.insert token grant nowMs).map id .issued
  | .redeem lease epoch nowMs p => (redeemDataGrant s lease epoch nowMs p).map id .redeemed

def TokenState.Step (s : TokenState) (l : Label TokenCall TokenAnswer) (t : TokenState) : Prop :=
  s.exec l.call = (t, l.answer)

/-- The call issued the token with this grant. -/
def Issues (token : String) (grant : DataGrant) (l : Label TokenCall TokenAnswer) : Prop :=
  ∃ nowMs, l = ⟨.issue token grant nowMs, .issued (.ok ())⟩

/-- The call redeemed the token for this grant. -/
def Redeems (token : String) (grant : DataGrant) (l : Label TokenCall TokenAnswer) : Prop :=
  ∃ lease epoch nowMs p, p.token = token ∧ l = ⟨.redeem lease epoch nowMs p, .redeemed (.ok grant)⟩

/-- The presentation satisfies what the grant is bound to: the peer that holds
the lease, the lease in its epoch, and the parameters of the stream. -/
structure DataGrant.Binds (grant : DataGrant) (lease : ControllerLease) (currentLeaseEpoch : ℕ)
    (p : Presentation) : Prop where
  live : p.peer.reverify = .ok ()
  pid : p.peer.pid = grant.leaseOwner.peerPid
  startIdentity : p.peer.startIdentity = grant.leaseOwner.peerStartIdentity
  lease : lease = some ⟨grant.leaseOwner, grant.leaseId⟩
  epoch : currentLeaseEpoch = grant.leaseEpoch
  frame : (p.version, p.workerInstanceId, p.streamId, p.mode, p.afterOffset, p.attach) =
    (grant.version, grant.workerInstanceId, grant.streamId, grant.mode, grant.afterOffset,
      grant.attach)

section Steps

variable {s t : TokenState} {lease : ControllerLease} {epoch nowMs : ℕ} {p : Presentation}
    {grant : DataGrant}
  {token : String}

theorem purgeExpired_get (s : TokenState) (nowMs : ℕ) (token : String) :
    (s.purgeExpired nowMs).grants[token]? = s.grants[token]?.filter fun grant => nowMs <
    grant.expiresAtMs := by
  unfold TokenState.purgeExpired
  rw [Std.ExtTreeMap.getElem?_filter]
  cases s.grants[token]? <;> simp [Option.pfilter, Option.filter]

theorem purgeExpired_get_some : (s.purgeExpired nowMs).grants[token]? = some grant ↔
    s.grants[token]? = some grant ∧ nowMs < grant.expiresAtMs := by
  rw [purgeExpired_get, filter_eq_some_iff, decide_eq_true_eq]

theorem purge_twice (s : TokenState) (nowMs : ℕ) :
    (s.purgeExpired nowMs).purgeExpired nowMs = s.purgeExpired nowMs := by
  have hgrants : ((s.purgeExpired nowMs).purgeExpired nowMs).grants =
    (s.purgeExpired nowMs).grants := by
    refine ext_getElem? fun token => ?_
    rw [purgeExpired_get, purgeExpired_get, filter_filter]
    simp
  exact congrArg (TokenState.mk · s.maximum) hgrants

theorem checkOwner_ok {peer : PeerContext} {owner : LeaseOwner}
    (h : peer.checkOwner owner = .ok ()) :
    peer.reverify = .ok () ∧ peer.pid = owner.peerPid ∧
    peer.startIdentity = owner.peerStartIdentity := by
  revert h
  fun_cases peer.checkOwner owner <;> rintro ⟨⟩
  next hlive hsame => exact ⟨hlive, hsame.1.symm, hsame.2.symm⟩

theorem check_ok (h : grant.check lease epoch p = .ok ()) :
    lease = some ⟨grant.leaseOwner, grant.leaseId⟩ ∧
    epoch = grant.leaseEpoch ∧
    (p.version, p.workerInstanceId, p.streamId, p.mode, p.afterOffset, p.attach) =
      (grant.version, grant.workerInstanceId, grant.streamId, grant.mode, grant.afterOffset,
      grant.attach) := by
  unfold DataGrant.check ControllerLease.validate at h
  by_cases hlease : lease = some ⟨grant.leaseOwner, grant.leaseId⟩
  · rw [if_pos hlease] at h
    dsimp only at h
    split at h
    · cases h
    · rename_i hepoch
      split at h
      · cases h
      · rename_i hframe
        simp only [ne_eq, not_or, not_not] at hepoch hframe
        obtain ⟨h1, h2, h3, h4, h5, h6⟩ := hframe
        exact ⟨hlease, hepoch.symm, by rw [h1, h2, h3, h4, h5, h6]⟩
  · rw [if_neg hlease] at h
    cases h

/-- What a redemption did: the token was live, the presentation met its
binding, and the grant is gone. -/
theorem redeemDataGrant_ok (h : redeemDataGrant s lease epoch nowMs p = (t, .ok grant)) :
    s.grants[p.token]? = some grant ∧ nowMs < grant.expiresAtMs ∧ grant.Binds lease epoch p ∧
      t = { s.purgeExpired nowMs with grants := (s.purgeExpired nowMs).grants.erase p.token } := by
  unfold redeemDataGrant TokenState.grantOwner at h
  dsimp only at h
  cases hget : (s.purgeExpired nowMs).grants[p.token]? with
  | none =>
    simp [TokenState.redeem, purge_twice, hget] at h
  | some found =>
    rw [hget] at h
    dsimp only [map_some] at h
    obtain ⟨hlive, hbefore⟩ := purgeExpired_get_some.mp hget
    cases hpeer : p.peer.checkOwner found.leaseOwner with
    | error reason =>
      rw [hpeer] at h
      cases h
    | ok _ =>
      rw [hpeer] at h
      simp only [TokenState.redeem, purge_twice, hget] at h
      cases hcheck : found.check lease epoch p with
      | error e =>
        rw [hcheck] at h
        cases h
      | ok _ =>
        rw [hcheck] at h
        cases h
        obtain ⟨hreverify, hpid, hstart⟩ := checkOwner_ok hpeer
        obtain ⟨hlease, hepoch, hframe⟩ := check_ok hcheck
        exact ⟨hlive, hbefore, ⟨hreverify, hpid, hstart, hlease, hepoch, hframe⟩, rfl⟩

/-- A peer that does not own the lease leaves the token where it was. -/
theorem redeemDataGrant_foreign {reason : RejectReason} (h : s.grants[p.token]? = some grant)
    (hlive : nowMs < grant.expiresAtMs)
    (hforeign : p.peer.checkOwner grant.leaseOwner = .error reason) :
    redeemDataGrant s lease epoch nowMs p =
    (s.purgeExpired nowMs, .error (.peerIdentity reason)) := by
  have hget : (s.purgeExpired nowMs).grants[p.token]? = some grant :=
    purgeExpired_get_some.mpr ⟨h, hlive⟩
  unfold redeemDataGrant TokenState.grantOwner
  simp only [hget, map_some, hforeign]

theorem get_of_redeem (h : (redeemDataGrant s lease epoch nowMs p).1.grants[token]? = some grant) :
    s.grants[token]? = some grant := by
  unfold redeemDataGrant TokenState.grantOwner at h
  dsimp only at h
  split at h
  · exact (purgeExpired_get_some.mp h).1
  · have herase : ((s.purgeExpired nowMs).grants.erase p.token)[token]? = some grant := by
      simp only [TokenState.redeem, purge_twice] at h
      split at h
      · exact h
      · exact h
    rw [getElem?_erase] at herase
    split at herase
    · cases herase
    · exact (purgeExpired_get_some.mp herase).1

theorem redeem_of_step {result : Except WorkerError DataGrant}
    (h : s.Step ⟨.redeem lease epoch nowMs p, .redeemed result⟩ t) :
    redeemDataGrant s lease epoch nowMs p = (t, result) := by
  have hmap : (redeemDataGrant s lease epoch nowMs p).map id TokenAnswer.redeemed =
    (t, .redeemed result) := h
  obtain ⟨hstate, hresult⟩ := Prod.mk.inj hmap
  exact Prod.ext hstate (TokenAnswer.redeemed.inj hresult)

variable {l : Label TokenCall TokenAnswer}

/-- Between the calls a table only loses entries, but for the one a call
issues; an entry that stays was not redeemed. -/
theorem get_of_step (h : s.Step l t) (hget : t.grants[token]? = some grant) :
    Issues token grant l ∨
      s.grants[token]? = some grant ∧ (∀ g, ¬ Issues token g l) ∧ ∀ g, ¬ Redeems token g l := by
  obtain ⟨call, answer⟩ := l
  cases call with
  | issue token' grant' nowMs =>
    have hredeems : ∀ g, ¬ Redeems token g ⟨.issue token' grant' nowMs, answer⟩ := by
      rintro g ⟨_, _, _, _, -, heq⟩
      cases heq
    simp only [TokenState.Step, TokenState.exec, TokenState.insert] at h
    split at h
    · cases h
      refine .inr ⟨hget, ?_, hredeems⟩
      rintro g ⟨_, heq⟩
      cases heq
    · split at h
      · cases h
        refine .inr ⟨(purgeExpired_get_some.mp hget).1, ?_, hredeems⟩
        rintro g ⟨_, heq⟩
        cases heq
      · split at h
        · cases h
          refine .inr ⟨(purgeExpired_get_some.mp hget).1, ?_, hredeems⟩
          rintro g ⟨_, heq⟩
          cases heq
        · cases h
          have hinsert : ((s.purgeExpired nowMs).grants.insert token' grant')[token]? =
            some grant := hget
          rw [getElem?_insert] at hinsert
          by_cases htoken : token' = token
          · rw [if_pos (by rw [htoken]; exact Std.ReflCmp.compare_self)] at hinsert
            cases hinsert
            exact .inl ⟨nowMs, by rw [htoken]⟩
          · rw [if_neg (by rw [Std.LawfulEqCmp.compare_eq_iff_eq]; exact htoken)] at hinsert
            refine .inr ⟨(purgeExpired_get_some.mp hinsert).1, ?_, hredeems⟩
            rintro g ⟨_, heq⟩
            cases heq
            exact htoken rfl
  | redeem lease epoch nowMs p =>
    have hissues : ∀ g, ¬ Issues token g ⟨.redeem lease epoch nowMs p, answer⟩ := by
      rintro g ⟨_, heq⟩
      cases heq
    have hanswer : (redeemDataGrant s lease epoch nowMs p).map id TokenAnswer.redeemed =
      (t, answer) := h
    refine .inr ⟨?_, hissues, ?_⟩
    · have ht : t = (redeemDataGrant s lease epoch nowMs p).1 := (congrArg Prod.fst hanswer).symm
      rw [ht] at hget
      exact get_of_redeem hget
    · rintro g ⟨_, _, _, _, htoken, heq⟩
      cases heq
      obtain ⟨-, -, -, rfl⟩ := redeemDataGrant_ok (redeem_of_step h)
      rw [htoken] at hget
      simp at hget

theorem size_purgeExpired_le (s : TokenState) (nowMs : ℕ) :
    (s.purgeExpired nowMs).grants.size ≤ s.grants.size :=
  size_filter_le_size

/-- The table stays within its maximum. -/
theorem bounded_of_step (h : s.Step l t) :
    t.maximum = s.maximum ∧ (s.grants.size ≤ s.maximum → t.grants.size ≤ t.maximum) := by
  obtain ⟨call, answer⟩ := l
  have hpurge := size_purgeExpired_le s
  cases call with
  | issue token grant nowMs =>
    simp only [TokenState.Step, TokenState.exec, TokenState.insert] at h
    split at h
    · cases h
      exact ⟨rfl, fun hs => hs⟩
    · split at h
      · cases h
        exact ⟨rfl, fun hs => (hpurge nowMs).trans hs⟩
      · split at h
        · cases h
          exact ⟨rfl, fun hs => (hpurge nowMs).trans hs⟩
        · rename_i hroom
          cases h
          refine ⟨rfl, fun _ => ?_⟩
          have hinsert : ((s.purgeExpired nowMs).grants.insert token grant).size ≤
            (s.purgeExpired nowMs).grants.size + 1 :=
            size_insert_le
          exact hinsert.trans (Nat.not_le.mp hroom)
  | redeem lease epoch nowMs p =>
    have herase : ((s.purgeExpired nowMs).grants.erase p.token).size ≤ s.grants.size :=
      size_erase_le.trans (hpurge nowMs)
    have ht : (redeemDataGrant s lease epoch nowMs p).1 = t := congrArg Prod.fst h
    unfold redeemDataGrant TokenState.grantOwner at ht
    dsimp only at ht
    split at ht
    · subst ht
      exact ⟨rfl, fun hs => (hpurge nowMs).trans hs⟩
    · simp only [TokenState.redeem, purge_twice] at ht
      split at ht
      · subst ht
        exact ⟨rfl, fun hs => herase.trans hs⟩
      · subst ht
        exact ⟨rfl, fun hs => herase.trans hs⟩

end Steps

/-- The token was issued with this grant, and neither issued nor redeemed since. -/
def Outstanding (tr : List (Label TokenCall TokenAnswer)) (token : String)
    (grant : DataGrant) : Prop :=
  ∃ before l after, tr = before ++ l :: after ∧ Issues token grant l ∧
    ∀ m ∈ after, (∀ g, ¬ Issues token g m) ∧ ∀ g, ¬ Redeems token g m

/-- What is in the table is outstanding. -/
theorem outstanding_of_run {s : TokenState} {maximum : ℕ} {tr : List (Label TokenCall TokenAnswer)}
    (h : Run TokenState.Step (.withMaximum maximum) tr s) {token : String} {grant : DataGrant}
    (hget : s.grants[token]? = some grant) : Outstanding tr token grant := by
  refine h.history ?_ ?_ token grant hget
  · intro token grant hnone
    simp [TokenState.withMaximum] at hnone
  · intro tr t l u _ ih hstep token grant hget
    rcases get_of_step hstep hget with hissue | ⟨hbefore, hissues, hredeems⟩
    · exact ⟨tr, l, [], rfl, hissue, fun m hm => absurd hm List.not_mem_nil⟩
    · obtain ⟨before, m, after, rfl, hm, hafter⟩ := ih token grant hbefore
      exact ⟨before, m, after ++ [l], by simp, hm, List.forall_mem_snoc hafter ⟨hissues, hredeems⟩⟩

/-- **Data grants are one-shot.** However calls follow each other, whatever
clock readings, peers and frames they carry: the table stays within its
capacity; a redemption has an issue of the token with exactly its grant before
it, with no redemption and no other issue of the token in between, reads a
clock before the expiry, and comes from a peer that meets the binding; and an
attempt of a peer that does not own the lease leaves the token for its owner. -/
theorem grants_one_shot {s : TokenState} {maximum : ℕ} {tr : List (Label TokenCall TokenAnswer)}
    (h : Run TokenState.Step (.withMaximum maximum) tr s) :
    s.grants.size ≤ maximum ∧ (∀ before lease epoch nowMs p grant after,
      tr = before ++ ⟨.redeem lease epoch nowMs p, .redeemed (.ok grant)⟩ :: after →
      Outstanding before p.token grant ∧ nowMs < grant.expiresAtMs ∧ grant.Binds lease epoch p) ∧
    ∀ token grant, s.grants[token]? = some grant →
      ∀ lease epoch nowMs p reason, p.token = token → nowMs < grant.expiresAtMs →
        p.peer.checkOwner grant.leaseOwner = .error reason → ∀ t answer,
        s.Step ⟨.redeem lease epoch nowMs p, answer⟩ t →
          answer = .redeemed (.error (.peerIdentity reason)) ∧ t.grants[token]? = some grant := by
  refine ⟨?_, ?_, ?_⟩
  · have hbounded : s.maximum = maximum ∧ s.grants.size ≤ s.maximum := by
      refine h.invariant ⟨rfl, ?_⟩ ?_
      · simp [TokenState.withMaximum]
      · intro t l u ht hstep
        obtain ⟨hmaximum, hsize⟩ := bounded_of_step hstep
        exact ⟨hmaximum.trans ht.1, hsize ht.2⟩
    exact hbounded.1 ▸ hbounded.2
  · rintro before lease epoch nowMs p grant after rfl
    obtain ⟨t, hbefore, hafter⟩ := h.split
    obtain ⟨u, hstep, -⟩ := hafter.cons_inv
    obtain ⟨hget, hlive, hbinds, -⟩ := redeemDataGrant_ok (redeem_of_step hstep)
    exact ⟨outstanding_of_run hbefore hget, hlive, hbinds⟩
  · rintro token grant hget lease epoch nowMs p reason rfl hlive hforeign t answer hstep
    have hredeem : redeemDataGrant s lease epoch nowMs p = _ :=
      redeemDataGrant_foreign hget hlive hforeign
    have hstate : (redeemDataGrant s lease epoch nowMs p).map id TokenAnswer.redeemed =
      (t, answer) := hstep
    rw [hredeem] at hstate
    cases hstate
    exact ⟨rfl, purgeExpired_get_some.mpr ⟨hget, hlive⟩⟩

/-! A grant of a daemon, presented by another process, by the daemon, and by
the daemon again. -/

def sampleOwner : LeaseOwner := ⟨"daemon-1", 100, "100-1"⟩

def sampleGrant : DataGrant :=
  ⟨sampleOwner, "lease-1", 0, 6, 50, "worker-1", "stream-1", .attach, none, some ⟨none⟩, none⟩

def samplePresentation (pid : ℕ) : Presentation :=
  ⟨"token-1", 6, "worker-1", "stream-1", .attach, none, some ⟨none⟩, ⟨pid, "100-1", .ok ()⟩⟩

/-- Each token once, within a capacity of one. -/
theorem grants_one_shot_sample : ∃ tr s,
    Run TokenState.Step (.withMaximum 1) tr s ∧ tr.map (·.answer) =
    [.issued (.ok ()), .issued (.error (.full 1)),
    .redeemed (.error (.peerIdentity .leaseOwnerMismatch)),
      .redeemed (.ok sampleGrant), .redeemed (.error TokenState.unusable)] ∧
    s.grants.size ≤ 1 := by
  let lease : ControllerLease := some ⟨sampleOwner, "lease-1"⟩
  have hrun := Runs.execAll_get (fun s c => some (TokenState.exec s c)) (.withMaximum 1)
    [.issue "token-1" sampleGrant 10, .issue "token-2" sampleGrant 11,
    .redeem lease 0 12 (samplePresentation 200),
      .redeem lease 0 13 (samplePresentation 100), .redeem lease 0 14 (samplePresentation 100)] rfl
  have hsteps := hrun.1.mono fun h => some.inj h
  exact ⟨_, _, hsteps, by decide +kernel, (grants_one_shot hsteps).1⟩

end Pohunek.Stream
