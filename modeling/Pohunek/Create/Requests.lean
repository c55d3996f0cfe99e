/-
# Keyed creates

`claim_create_request` of `crates/daemon/src/session/create_request.rs`: a
`session.new` with an idempotency key either gets the key's claim and creates
its session, or is answered from the claim, the live session or the durable
record that holds the key.

The claims and the live sessions are read under one lock, so the decision is
one step. The store is read later, each read a step that may fail, and a
request may be dropped at any await. A create that was told to go on changes
its own entry and record in any order until its claim is dropped. Sessions may
be removed meanwhile, entry and record apart.

What carries the property is that only the request with a key's claim adds
rows that hold the key, and that it goes on only where no record holds it
(`Inv`). A repeat of a settled create reads the store before it is answered,
and fails with it (`repeat_fails`).

A request's id is the session id it allocated. Requests without a key claim
nothing and are left out.
-/
import Pohunek.Lib.Run

namespace Pohunek.Create

open List

open Runs (Run)

structure CreateRequest where
  id : String
  fingerprint : String
  deriving DecidableEq

/-- A live entry or a durable record of a session. It is unsettled while its
initial input or its compensation is pending, or while the record carries its
create transaction. -/
structure SessionRow where
  sessionId : String
  createdOrder : ℕ
  createRequest : Option CreateRequest
  unsettled : Bool
  deriving DecidableEq

structure ClaimedCreate where
  sessionId : String
  fingerprint : String
  deriving DecidableEq

/-- What a request is answered; a fresh create is told by its phase. -/
inductive Answer
  | replay (sessionId : String)
  | inProgress (sessionId : String)
  | conflict (sessionId : String)
  | storeFailed
  deriving DecidableEq

inductive KeyedCreate
  | fresh
  | replay (sessionId : String)
  deriving DecidableEq

inductive Phase
  /-- Claimed; the store is still to be asked for a holder. -/
  | checking
  /-- The store has a holder; the claim is still to be dropped. -/
  | refused (answer : Answer)
  /-- Told `Fresh`. -/
  | creating
  /-- A live session answers; its record is still to be read. -/
  | replaying (sessionId : String)
  | answered (answer : Answer)
  | ended
  deriving DecidableEq

def Phase.claims : Phase → Bool
  | .checking | .refused _ | .creating => true
  | _ => false

structure Request where
  key : String
  fingerprint : String
  phase : Phase
  deriving DecidableEq

structure Registry where
  claims : String → Option ClaimedCreate
  sessions : List SessionRow
  records : List SessionRow
  requests : String → Option Request
  /-- Every session id so far. -/
  allocated : List String

def SessionRow.holds (key : String) (x : SessionRow) :
    Bool := x.createRequest.any fun q => q.id == key

/-- The rows that hold the key, oldest first. -/
def holders (rows : List SessionRow) (key : String) : List SessionRow :=
  (rows.filter (·.holds key)).mergeSort fun a b => a.createdOrder ≤ b.createdOrder

def SessionRow.sameFingerprint (x : SessionRow) (fingerprint : String) : Bool :=
  x.createRequest.any fun q => q.fingerprint == fingerprint

/-- The error for the record that already holds the key. -/
def durableHolderError (records : List SessionRow) (key fingerprint : String) : Option Answer :=
  match holders records key with
  | [] => none
  | oldest :: more =>
    if more.isEmpty && oldest.sameFingerprint fingerprint then some (.inProgress oldest.sessionId)
    else some (.conflict oldest.sessionId)

def decideCreateRequest (claims : String → Option ClaimedCreate) (sessions : List SessionRow)
    (key fingerprint : String) : Except Answer KeyedCreate :=
  match claims key with
  | some claimed =>
    .error (if claimed.fingerprint = fingerprint then .inProgress claimed.sessionId
      else .conflict claimed.sessionId)
  | none =>
    match holders sessions key with
    | [] => .ok .fresh
    | oldest :: more =>
      if more.isEmpty = false then .error (.conflict oldest.sessionId)
      else if oldest.sameFingerprint fingerprint = false then .error (.conflict oldest.sessionId)
      else if oldest.unsettled then .error (.inProgress oldest.sessionId)
      else .ok (.replay oldest.sessionId)

inductive Event
  | submit (id key fingerprint : String)
  | check (id : String) (readable : Bool)
  | load (id : String) (readable : Bool)
  | make (id : String) (entry record : Option (ℕ × Bool))
  | drop (id : String)
  | removeEntry (sessionId : String)
  | deleteRecord (sessionId : String)
  deriving DecidableEq

/-- The session's row replaced, or removed. -/
def replace (rows : List SessionRow) (sessionId : String) (q : CreateRequest)
    (row : Option (ℕ × Bool)) : List SessionRow :=
  rows.filter (fun x => x.sessionId ≠ sessionId) ++
  (row.map fun r => ⟨sessionId, r.1, some q, r.2⟩).toList

namespace Registry

variable (s : Registry)

def setRequest (id : String) (r : Request) : Registry :=
  { s with requests := Function.update s.requests id (some r) }

/-- `CreateClaim::drop`. -/
def release (key : String) : Registry := { s with claims := Function.update s.claims key none }

def submit (id key fingerprint : String) : Registry :=
  let s := { s with allocated := id :: s.allocated }
  match decideCreateRequest s.claims s.sessions key fingerprint with
  | .error answer => s.setRequest id ⟨key, fingerprint, .answered answer⟩
  | .ok (.replay sessionId) => s.setRequest id ⟨key, fingerprint, .replaying sessionId⟩
  | .ok .fresh =>
    { s with claims := Function.update s.claims key (some ⟨id, fingerprint⟩) }.setRequest id
      ⟨key, fingerprint, .checking⟩

/-- The phase after the store was asked for a holder. -/
def checked (r : Request) (readable : Bool) : Phase :=
  if readable = false then .refused .storeFailed
  else
    match durableHolderError s.records r.key r.fingerprint with
    | some answer => .refused answer
    | none => .creating

/-- The answer after the live session's record was read. -/
def loaded (sessionId : String) (readable : Bool) : Answer :=
  if readable = false then .storeFailed
  else if s.records.any fun x => x.sessionId = sessionId && x.unsettled then .inProgress sessionId
  else .replay sessionId

def step : Event → Option Registry
  | .submit id key fingerprint => if id ∈ s.allocated then none
    else some (s.submit id key fingerprint)
  | .check id readable =>
    match s.requests id with
    | some r => if r.phase = .checking then
      some (s.setRequest id { r with phase := s.checked r readable }) else none
    | none => none
  | .load id readable =>
    match s.requests id with
    | some ⟨key, fingerprint, .replaying sessionId⟩ =>
      some (s.setRequest id ⟨key, fingerprint, .answered (s.loaded sessionId readable)⟩)
    | _ => none
  | .make id entry record =>
    match s.requests id with
    | some r =>
      if r.phase = .creating then
        some { s with
          sessions := replace s.sessions id ⟨r.key, r.fingerprint⟩ entry
          records := replace s.records id ⟨r.key, r.fingerprint⟩ record }
      else none
    | none => none
  | .drop id =>
    match s.requests id with
    | some ⟨key, fingerprint, .refused answer⟩ =>
      some ((s.setRequest id ⟨key, fingerprint, .answered answer⟩).release key)
    | some ⟨key, fingerprint, .checking⟩ | some ⟨key, fingerprint, .creating⟩ =>
      some ((s.setRequest id ⟨key, fingerprint, .ended⟩).release key)
    | some ⟨key, fingerprint, .replaying _⟩ => some (s.setRequest id ⟨key, fingerprint, .ended⟩)
    | _ => none
  | .removeEntry sessionId =>
    some { s with sessions := s.sessions.filter fun x => x.sessionId ≠ sessionId }
  | .deleteRecord sessionId =>
    some { s with records := s.records.filter fun x => x.sessionId ≠ sessionId }

def Step (e : Event) (t : Registry) : Prop := s.step e = some t

/-- What there is of the session is settled: its create committed it, or
removed it. -/
def settledBool (sessionId : String) : Bool :=
  (s.sessions ++ s.records).all fun x => x.sessionId ≠ sessionId || !x.unsettled

/-- A create drops its claim only once its session is committed or gone. -/
def orderly : Event → Bool
  | .drop id =>
    match s.requests id with
    | some ⟨_, _, .creating⟩ => s.settledBool id
    | _ => true
  | _ => true

def OrderlyStep (e : Event) (t : Registry) : Prop := s.Step e t ∧ s.orderly e

end Registry

/-! ### Rows that hold a key -/

section Rows

variable {rows : List SessionRow} {key sessionId : String} {q : CreateRequest}
    {row : Option (ℕ × Bool)} {x : SessionRow}

theorem mem_holders : x ∈ holders rows key ↔ x ∈ rows ∧ x.holds key := by
  rw [holders, mem_mergeSort, mem_filter]

theorem holders_eq_nil : holders rows key = [] ↔ ∀ x ∈ rows, x.holds key = false := by
  simp only [eq_nil_iff_forall_not_mem, mem_holders, not_and, Bool.not_eq_true]

/-- Where one session holds the key, its row is the only holder. -/
theorem holders_eq_singleton (hx : x ∈ rows) (hholds : x.holds key)
    (hnodup : (rows.map (·.sessionId)).Nodup)
    (hone : ∀ y ∈ rows, y.holds key → y.sessionId = x.sessionId) : holders rows key = [x] := by
  have hrows : rows.Nodup := hnodup.of_map
  have hfilter : rows.filter (·.holds key) = [x] := by
    refine perm_singleton.mp
      ((perm_ext_iff_of_nodup (hrows.filter _) (nodup_singleton x)).mpr fun y => ?_)
    rw [mem_filter, mem_singleton]
    constructor
    · rintro ⟨hy, hyholds⟩
      exact inj_on_of_nodup_map hnodup hy hx (hone y hy hyholds)
    · rintro rfl
      exact ⟨hx, hholds⟩
  rw [holders, hfilter, mergeSort_singleton]

theorem mem_replace : x ∈ replace rows sessionId q row ↔
    x ∈ rows ∧ x.sessionId ≠ sessionId ∨ ∃ r ∈ row, x = ⟨sessionId, r.1, some q, r.2⟩ := by
  simp only [replace, mem_append, mem_filter, decide_eq_true_eq, Option.mem_toList, Option.mem_def,
    Option.map_eq_some_iff]
  exact or_congr_right (exists_congr fun r => and_congr_right fun _ => eq_comm)

theorem nodup_replace (h : (rows.map (·.sessionId)).Nodup) :
    ((replace rows sessionId q row).map (·.sessionId)).Nodup := by
  rw [replace, map_append, nodup_append]
  refine ⟨h.sublist (filter_sublist.map _), ?_, ?_⟩
  · cases row <;> simp
  · intro a ha b hb
    obtain ⟨y, hy, rfl⟩ := mem_map.mp ha
    have hne : y.sessionId ≠ sessionId := by simpa using (mem_filter.mp hy).2
    cases row with
    | none => simp at hb
    | some r =>
      have hb' : b = sessionId := by simpa using hb
      rw [hb']
      exact hne

end Rows

namespace Registry

/-- Every row, live or durable. -/
def rows (s : Registry) : List SessionRow := s.sessions ++ s.records

/-- The session has a row that holds the key. -/
def Holds (s : Registry) (sessionId key : String) : Prop := ∃ x ∈ s.rows, x.sessionId = sessionId ∧
    x.holds key

def Settled (s : Registry) (sessionId : String) : Prop := ∀ x ∈ s.rows, x.sessionId = sessionId →
    x.unsettled = false

/-- The request runs its create. -/
def Creating (s : Registry) (id : String) : Prop := ∃ r, s.requests id = some r ∧
    r.phase = .creating

/-- The claims are those of the requests that claim. -/
structure Claimed (s : Registry) : Prop where
  requestIds : ∀ {id r}, s.requests id = some r → id ∈ s.allocated
  claimed : ∀ {id r}, s.requests id = some r → r.phase.claims →
    s.claims r.key = some ⟨id, r.fingerprint⟩
  claimant : ∀ {key c}, s.claims key = some c →
    ∃ phase, s.requests c.sessionId = some ⟨key, c.fingerprint, phase⟩ ∧ phase.claims

/-- One session holds a key, and only the request with the key's claim adds
to it. -/
structure Inv (s : Registry) : Prop extends Claimed s where
  sessionIds : (s.sessions.map (·.sessionId)).Nodup
  recordIds : (s.records.map (·.sessionId)).Nodup
  rowIds : ∀ x ∈ s.rows, x.sessionId ∈ s.allocated
  unique : ∀ {key a b}, s.Holds a key → s.Holds b key → a = b
  -- no live session came to hold the key since the claim
  free : ∀ {id r}, s.requests id = some r → r.phase = .checking → ∀ x ∈ s.sessions,
    x.holds r.key = false
  own : ∀ {id r}, s.requests id = some r → r.phase = .creating → ∀ {a}, s.Holds a r.key → a = id
  mine : ∀ {id r}, s.requests id = some r → r.phase.claims → ∀ {key}, s.Holds id key → key = r.key
  settled : ∀ {a key}, s.Holds a key → s.Creating a ∨ s.Settled a
  replaying : ∀ {id r sessionId}, s.requests id = some r → r.phase = .replaying sessionId →
    sessionId ∈ s.allocated ∧ (∀ {r'}, s.requests sessionId = some r' → r'.phase.claims = false) ∧
    s.Settled sessionId

section Steps

variable {s t : Registry} {id key fingerprint : String} {r : Request} {phase : Phase}

variable {x : SessionRow}

theorem mem_rows : x ∈ s.rows ↔ x ∈ s.sessions ∨ x ∈ s.records := mem_append

theorem Settled.of_bool (h : s.settledBool id) : s.Settled id := by
  intro x hx hid
  have hall := all_eq_true.mp h x hx
  simpa [hid] using hall

/-- Sessions are removed. -/
theorem Inv.shrink (h : Inv s) (hclaimed : Claimed t) (hsessions : t.sessions.Sublist s.sessions)
    (hrecords : t.records.Sublist s.records) (hrequests : t.requests = s.requests)
    (hallocated : t.allocated = s.allocated) : Inv t := by
  have hrows : ∀ x ∈ t.rows, x ∈ s.rows := fun x hx =>
    mem_rows.mpr ((mem_rows.mp hx).imp (fun hx => hsessions.subset hx) fun hx => hrecords.subset hx)
  have hholds : ∀ {a key}, t.Holds a key → s.Holds a key := fun ⟨x, hx, hx'⟩ => ⟨x, hrows x hx, hx'⟩
  have hsettled : ∀ {a}, s.Settled a → t.Settled a := fun ha x hx => ha x (hrows x hx)
  refine ⟨hclaimed, h.sessionIds.sublist (hsessions.map _), h.recordIds.sublist (hrecords.map _),
    fun x hx => ?_, fun ha hb => h.unique (hholds ha) (hholds hb), ?_, ?_, ?_, fun ha => ?_, ?_⟩
  · rw [hallocated]; exact h.rowIds x (hrows x hx)
  · rw [hrequests]; exact fun hr hphase x hx => h.free hr hphase x (hsessions.subset hx)
  · rw [hrequests]; exact fun hr hphase _ ha => h.own hr hphase (hholds ha)
  · rw [hrequests]; exact fun hr hphase _ ha => h.mine hr hphase (hholds ha)
  · unfold Creating
    rw [hrequests]
    exact (h.settled (hholds ha)).imp_right hsettled
  · rw [hrequests, hallocated]
    exact fun hr hphase => (h.replaying hr hphase).imp_right fun hrest => hrest.imp_right hsettled

variable {a : String}

theorem update_inv {α : Type*} {f : String → Option α} {v w : α}
    (h : Function.update f id (some v) a = some w) : a = id ∧ w = v ∨ a ≠ id ∧ f a = some w := by
  by_cases ha : a = id
  · subst ha
    rw [Function.update_self] at h
    exact .inl ⟨rfl, (Option.some.inj h).symm⟩
  · rw [Function.update_of_ne ha] at h
    exact .inr ⟨ha, h⟩

/-- A key is claimed by one request. -/
theorem Claimed.claim_unique (h : Claimed s) {r' : Request} (hr : s.requests id = some r)
    (hr' : s.requests a = some r') (hclaims : r.phase.claims) (hclaims' : r'.phase.claims)
    (hkey : r'.key = r.key) : a = id := by
  have hclaimed := h.claimed hr' hclaims'
  rw [hkey, h.claimed hr hclaims, Option.some.injEq, ClaimedCreate.mk.injEq] at hclaimed
  exact hclaimed.1.symm

/-- What holds of a request in its phase. -/
structure Fits (s : Registry) (id : String) (r : Request) : Prop where
  free : r.phase = .checking → ∀ x ∈ s.sessions, x.holds r.key = false
  own : r.phase = .creating → ∀ {a}, s.Holds a r.key → a = id
  mine : r.phase.claims → ∀ {key}, s.Holds id key → key = r.key
  replaying : ∀ {sessionId}, r.phase = .replaying sessionId →
    sessionId ∈ s.allocated ∧ (∀ {r'}, s.requests sessionId = some r' → r'.phase.claims = false) ∧
    s.Settled sessionId

theorem Inv.fits (h : Inv s) (hr : s.requests id = some r) : Fits s id r :=
  ⟨h.free hr, h.own hr, h.mine hr, h.replaying hr⟩

theorem Fits.of_idle {r' : Request} (hclaims : r'.phase.claims = false)
    (hreplaying : ∀ sessionId, r'.phase = .replaying sessionId → sessionId ∈ s.allocated ∧
      (∀ {r'}, s.requests sessionId = some r' → r'.phase.claims = false) ∧
      s.Settled sessionId) : Fits s id r' := by
  have hnot : r'.phase.claims ≠ true := Bool.eq_false_iff.mp hclaims
  exact ⟨fun hphase => absurd (hphase ▸ rfl) hnot,
    fun hphase => absurd (hphase ▸ rfl) hnot, fun hphase => absurd hphase hnot,
    fun hphase => hreplaying _ hphase⟩

/-! ### The claims

They are kept by every step, whatever it leaves of the sessions. -/

variable {claims : String → Option ClaimedCreate} {allocated : List String}

/-- One request changes, and the claims of the others are kept. -/
theorem Claimed.update (h : Claimed s)
    (hallocated : s.allocated ⊆ allocated) (hid : id ∈ allocated)
    (hnew : r.phase.claims → claims r.key = some ⟨id, r.fingerprint⟩)
    (hclaims : ∀ {a r'}, a ≠ id → s.requests a = some r' → r'.phase.claims →
      claims r'.key = s.claims r'.key) (hclaimant : ∀ {key c}, claims key = some c → ∃ phase,
      Function.update s.requests id (some r) c.sessionId = some ⟨key, c.fingerprint, phase⟩ ∧
      phase.claims) :
    Claimed ⟨claims, s.sessions, s.records, Function.update s.requests id (some r), allocated⟩ := by
  refine ⟨fun {a r'} hr' => ?_, fun {a r'} hr' hphase => ?_, hclaimant⟩ <;>
    rcases update_inv hr' with ⟨rfl, rfl⟩ | ⟨ha, hr'⟩
  · exact hid
  · exact hallocated (h.requestIds hr')
  · exact hnew hphase
  · exact (hclaims ha hr' hphase).trans (h.claimed hr' hphase)

/-- A request changes its phase, and keeps its claim or has none. -/
theorem Claimed.setPhase (h : Claimed s) (hr : s.requests id = some r)
    (hclaims : phase.claims = r.phase.claims) :
    Claimed (s.setRequest id { r with phase := phase }) := by
  have hold := h.claimed hr
  refine h.update (List.Subset.refl _) (h.requestIds hr)
    (fun hphase => hold (hclaims.symm.trans hphase)) (fun _ _ _ => rfl) fun {key c} hc => ?_
  obtain ⟨phase', hphase', hclaiming⟩ := h.claimant hc
  by_cases hid : c.sessionId = id
  · subst hid
    cases hr.symm.trans hphase'
    exact ⟨phase, Function.update_self .., hclaims.trans hclaiming⟩
  · exact ⟨phase', (Function.update_of_ne hid ..).trans hphase', hclaiming⟩

/-- A claim is dropped. -/
theorem Claimed.leave (h : Claimed s) (hr : s.requests id = some r) (hclaims : r.phase.claims)
    (hphase : phase.claims = false) :
    Claimed ((s.setRequest id { r with phase := phase }).release r.key) := by
  refine h.update (List.Subset.refl _) (h.requestIds hr) (fun hclaiming => ?_)
    (fun {a r'} ha hr' hphase' => Function.update_of_ne (fun hkey => ?_) ..) fun {key c} hc => ?_
  · cases hphase.symm.trans hclaiming
  · -- the other claims are of other keys
    exact ha (h.claim_unique hr hr' hclaims hphase' hkey)
  · by_cases hkey : key = r.key
    · subst hkey
      have hnone : Function.update s.claims r.key none r.key = some c := hc
      rw [Function.update_self] at hnone
      cases hnone
    · have hc' : s.claims key = some c := (Function.update_of_ne hkey ..).symm.trans hc
      obtain ⟨phase', hphase', hclaiming⟩ := h.claimant hc'
      refine ⟨phase', (Function.update_of_ne ?_ ..).trans hphase', hclaiming⟩
      rintro rfl
      cases hr.symm.trans hphase'
      exact hkey rfl

/-- The claims of others are kept when a new request comes in. -/
theorem Claimed.claimant_new (h : Claimed s) (hid : id ∉ s.allocated) {c : ClaimedCreate}
    (hc : s.claims key = some c) :
    ∃ phase, Function.update s.requests id (some r) c.sessionId = some ⟨key, c.fingerprint, phase⟩ ∧
      phase.claims := by
  obtain ⟨phase, hphase, hclaiming⟩ := h.claimant hc
  refine ⟨phase, (Function.update_of_ne ?_ ..).trans hphase, hclaiming⟩
  rintro rfl
  exact hid (h.requestIds hphase)

/-- A request comes in and claims nothing. -/
theorem Claimed.enter (h : Claimed s) (hid : id ∉ s.allocated) (hclaims : r.phase.claims = false) :
    Claimed { s with
      allocated := id :: s.allocated, requests := Function.update s.requests id (some r) } :=
  h.update (subset_cons_self _ _) mem_cons_self (fun hclaiming => by cases hclaims.symm.trans hclaiming)
    (fun _ _ _ => rfl) fun hc => h.claimant_new hid hc

theorem decide_fresh (h : decideCreateRequest s.claims s.sessions key fingerprint = .ok .fresh) :
    s.claims key = none ∧ ∀ x ∈ s.sessions, x.holds key = false := by
  revert h
  fun_cases decideCreateRequest s.claims s.sessions key fingerprint <;> rintro ⟨⟩
  next hfree hnil => exact ⟨hfree, holders_eq_nil.mp hnil⟩

theorem Claimed.submit (h : Claimed s) (hid : id ∉ s.allocated) :
    Claimed (s.submit id key fingerprint) := by
  unfold Registry.submit
  dsimp only
  split
  · exact h.enter hid rfl
  · exact h.enter hid rfl
  · rename_i hdecide
    refine h.update (subset_cons_self _ _) mem_cons_self (fun _ => Function.update_self ..)
      (fun {a r'} _ hr' hphase => Function.update_of_ne (fun hkey => ?_) ..) fun {key' c} hc => ?_
    · have hclaimed := h.claimed hr' hphase
      rw [hkey, (decide_fresh hdecide).1] at hclaimed
      cases hclaimed
    · rcases update_inv hc with ⟨rfl, rfl⟩ | ⟨-, hc⟩
      · exact ⟨.checking, Function.update_self .., rfl⟩
      · exact h.claimant_new hid hc

theorem checked_claims (readable : Bool) : (s.checked r readable).claims ∧
    s.checked r readable ≠ .checking ∧
    ∀ sessionId, s.checked r readable ≠ .replaying sessionId := by
  fun_cases s.checked r readable <;> exact ⟨rfl, nofun, nofun⟩

theorem Claimed.step (h : Claimed s) {e : Event} (hstep : s.Step e t) : Claimed t := by
  revert hstep
  unfold Step
  fun_cases Registry.step s e <;> rintro ⟨⟩
  next hid => exact h.submit hid
  next readable r hr hphase => exact h.setPhase hr (by rw [(checked_claims readable).1, hphase]; rfl)
  next hr => exact h.setPhase hr rfl
  next => exact ⟨h.requestIds, h.claimed, h.claimant⟩
  next hr => exact h.leave hr rfl rfl
  next hr => exact h.leave hr rfl rfl
  next hr => exact h.leave hr rfl rfl
  next hr => exact h.setPhase hr rfl
  all_goals exact ⟨h.requestIds, h.claimed, h.claimant⟩

/-! ### The sessions -/

/-- One request changes, and what the others rely on is kept. -/
theorem Inv.update (h : Inv s)
    (hclaimed : Claimed ⟨claims, s.sessions, s.records, Function.update s.requests id (some r),
      allocated⟩) (hallocated : s.allocated ⊆ allocated)
    (hnew : Fits ⟨claims, s.sessions, s.records, Function.update s.requests id (some r),
      allocated⟩ id r) (hcreating : s.Creating id → r.phase = .creating ∨ s.Settled id)
    (hquiet : id ∈ s.allocated → (∀ {r'}, s.requests id = some r' → r'.phase.claims = false) →
      r.phase.claims = false) :
    Inv ⟨claims, s.sessions, s.records, Function.update s.requests id (some r), allocated⟩ := by
  have hfits : ∀ {a r'}, Function.update s.requests id (some r) a = some r' →
      Fits ⟨claims, s.sessions, s.records, Function.update s.requests id (some r),
      allocated⟩ a r' := by
    intro a r' hr'
    rcases update_inv hr' with ⟨rfl, rfl⟩ | ⟨ha, hr'⟩
    · exact hnew
    · have hold := h.fits hr'
      refine { hold with replaying := fun hphase => ?_ }
      obtain ⟨hknown, hnone, hsettled⟩ := hold.replaying hphase
      refine ⟨hallocated hknown, fun hr'' => ?_, hsettled⟩
      rcases update_inv hr'' with ⟨rfl, rfl⟩ | ⟨-, hr''⟩
      · exact hquiet hknown hnone
      · exact hnone hr''
  refine ⟨hclaimed, h.sessionIds, h.recordIds, fun x hx => hallocated (h.rowIds x hx), h.unique,
    fun hr => (hfits hr).free, fun hr => (hfits hr).own, fun hr => (hfits hr).mine,
    fun {a key} ha => ?_, fun hr => (hfits hr).replaying⟩
  by_cases hid : a = id
  · subst hid
    exact (h.settled ha).elim
      (fun hc => (hcreating hc).imp_left fun hphase => ⟨r, Function.update_self .., hphase⟩) .inr
  · exact (h.settled ha).imp_left fun ⟨r', hr', hphase⟩ =>
      ⟨r', (Function.update_of_ne hid ..).trans hr', hphase⟩

theorem Inv.setPhase (h : Inv s) (hr : s.requests id = some r)
    (hclaims : phase.claims = r.phase.claims) (hchecking : phase ≠ .checking)
    (hleft : r.phase ≠ .creating) (hreplaying : ∀ sessionId, phase ≠ .replaying sessionId)
    (hown : phase = .creating → ∀ {a}, s.Holds a r.key → a = id) :
    Inv (s.setRequest id { r with phase := phase }) := by
  refine h.update (h.toClaimed.setPhase hr hclaims) (List.Subset.refl _)
    ⟨fun hphase => absurd hphase hchecking, hown,
    fun hphase => h.mine hr (hclaims.symm.trans hphase),
    fun hphase => absurd hphase (hreplaying _)⟩ ?_ fun _ hnone => hclaims.trans (hnone hr)
  rintro ⟨r', hr', hphase'⟩
  cases hr.symm.trans hr'
  exact absurd hphase' hleft

/-- What a create leaves with its claim is settled. -/
theorem Inv.leave (h : Inv s) (hr : s.requests id = some r) (hclaims : r.phase.claims)
    (hphase : phase.claims = false) (hreplaying : ∀ sessionId, phase ≠ .replaying sessionId)
    (hsettled : r.phase = .creating → s.Settled id) :
    Inv ((s.setRequest id { r with phase := phase }).release r.key) := by
  refine h.update (h.toClaimed.leave hr hclaims hphase) (List.Subset.refl _)
    (.of_idle hphase fun _ heq => absurd heq (hreplaying _)) ?_ fun _ _ => hphase
  rintro ⟨r', hr', hcreating⟩
  cases hr.symm.trans hr'
  exact .inr (hsettled hcreating)

theorem Inv.enter (h : Inv s) (hid : id ∉ s.allocated) (hclaims : r.phase.claims = false)
    (hreplaying : ∀ sessionId, r.phase = .replaying sessionId → sessionId ∈ s.allocated ∧
      (∀ {r'}, s.requests sessionId = some r' → r'.phase.claims = false) ∧ s.Settled sessionId) :
    Inv { s with
      allocated := id :: s.allocated, requests := Function.update s.requests id (some r) } := by
  refine h.update (h.toClaimed.enter hid hclaims) (subset_cons_self _ _)
      (.of_idle hclaims fun sessionId hphase => ?_)
    (fun ⟨_, hr', _⟩ => absurd (h.requestIds hr') hid) fun _ _ => hclaims
  obtain ⟨hallocated, hnone, hsettled⟩ := hreplaying sessionId hphase
  refine ⟨mem_cons_of_mem _ hallocated, fun hr'' => ?_, hsettled⟩
  rcases update_inv hr'' with ⟨rfl, rfl⟩ | ⟨-, hr''⟩
  · exact hclaims
  · exact hnone hr''

/-- A create changes its own rows. -/
theorem Inv.make (h : Inv s) (hr : s.requests id = some r) (hphase : r.phase = .creating)
    (entry record : Option (ℕ × Bool)) : Inv { s with
      sessions := replace s.sessions id ⟨r.key, r.fingerprint⟩ entry
      records := replace s.records id ⟨r.key, r.fingerprint⟩ record } := by
  set t : Registry := { s with
    sessions := replace s.sessions id ⟨r.key, r.fingerprint⟩ entry
    records := replace s.records id ⟨r.key, r.fingerprint⟩ record }
  have hclaims : r.phase.claims = true := by rw [hphase]; rfl
  have hrows : ∀ x ∈ t.rows, x ∈ s.rows ∧ x.sessionId ≠ id ∨
      x.sessionId = id ∧ x.createRequest = some ⟨r.key, r.fingerprint⟩ := by
    intro x hx
    rcases mem_append.mp hx with hx | hx <;> rcases mem_replace.mp hx with ⟨hx, hne⟩ | ⟨row, -, rfl⟩
    · exact .inl ⟨mem_rows.mpr (.inl hx), hne⟩
    · exact .inr ⟨rfl, rfl⟩
    · exact .inl ⟨mem_rows.mpr (.inr hx), hne⟩
    · exact .inr ⟨rfl, rfl⟩
  have hkey : ∀ {x : SessionRow} {key}, x.createRequest = some ⟨r.key, r.fingerprint⟩ →
    x.holds key → key = r.key := by
    intro x key hx hholds
    rw [SessionRow.holds, hx] at hholds
    exact (beq_iff_eq.mp hholds).symm
  -- a holder is an old one of another session, or the create's own of its key
  have hholds : ∀ {a key}, t.Holds a key → s.Holds a key ∧ a ≠ id ∨ a = id ∧ key = r.key := by
    rintro a key ⟨x, hx, rfl, hx'⟩
    rcases hrows x hx with ⟨hx, hne⟩ | ⟨hid, hq⟩
    · exact .inl ⟨⟨x, hx, rfl, hx'⟩, hne⟩
    · exact .inr ⟨hid, hkey hq hx'⟩
  have hsettled : ∀ {a}, a ≠ id → s.Settled a → t.Settled a := by
    intro a hne ha x hx hid
    rcases hrows x hx with ⟨hx, -⟩ | ⟨hid', -⟩
    · exact ha x hx hid
    · exact absurd (hid.symm.trans hid') hne
  refine ⟨⟨h.requestIds, h.claimed, h.claimant⟩, nodup_replace h.sessionIds,
    nodup_replace h.recordIds, fun x hx => ?_,
    fun {key a b} ha hb => ?_, fun {a r'} hr' hphase' x hx => ?_,
    fun {a r'} hr' hphase' {b} hb => ?_,
    fun {a r'} hr' hphase' {key} hb => ?_, fun {a key} ha => ?_,
    fun {a r' sessionId} hr' hphase' => ?_⟩
  · rcases hrows x hx with ⟨hx, -⟩ | ⟨hid, -⟩
    · exact h.rowIds x hx
    · rw [hid]; exact h.requestIds hr
  · rcases hholds ha with ⟨hold, hane⟩ | ⟨rfl, rfl⟩
    · rcases hholds hb with ⟨hold', -⟩ | ⟨rfl, rfl⟩
      · exact h.unique hold hold'
      · exact absurd (h.own hr hphase hold) hane
    · rcases hholds hb with ⟨hold', -⟩ | ⟨rfl, -⟩
      · exact (h.own hr hphase hold').symm
      · rfl
  · rcases mem_replace.mp hx with ⟨hx, -⟩ | ⟨row, -, rfl⟩
    · exact h.free hr' hphase' x hx
    · -- another request checks: its key is another one
      rw [Bool.eq_false_iff]
      intro hx'
      have hsame : r'.key = r.key := hkey rfl hx'
      obtain rfl := h.claim_unique hr hr' hclaims (by rw [hphase']; rfl) hsame
      cases hr.symm.trans hr'
      rw [hphase] at hphase'
      cases hphase'
  · rcases hholds hb with ⟨hb, -⟩ | ⟨rfl, hsame⟩
    · exact h.own hr' hphase' hb
    · exact (h.claim_unique hr hr' hclaims (by rw [hphase']; rfl) hsame).symm
  · rcases hholds hb with ⟨hb, -⟩ | ⟨rfl, hsame⟩
    · exact h.mine hr' hphase' hb
    · cases hr.symm.trans hr'
      exact hsame
  · rcases hholds ha with ⟨ha, hne⟩ | ⟨rfl, -⟩
    · exact (h.settled ha).imp_right (hsettled hne)
    · exact .inl ⟨r, hr, hphase⟩
  · obtain ⟨hallocated, hquiet, hsettled'⟩ := h.replaying hr' hphase'
    refine ⟨hallocated, hquiet, hsettled ?_ hsettled'⟩
    rintro rfl
    rw [hquiet hr] at hclaims
    cases hclaims

/-- The phase a request comes in with. -/
def entryPhase (s : Registry) (key fingerprint : String) : Phase :=
  match decideCreateRequest s.claims s.sessions key fingerprint with
  | .error answer => .answered answer
  | .ok (.replay sessionId) => .replaying sessionId
  | .ok .fresh => .checking

/-- The one live session that holds a free key. -/
theorem Inv.holders_live (h : Inv s) (hx : x ∈ s.sessions) (hholds : x.holds key) :
    holders s.sessions key = [x] := by
  refine holders_eq_singleton hx hholds h.sessionIds fun y hy hyholds => ?_
  exact h.unique ⟨y, mem_rows.mpr (.inl hy), rfl, hyholds⟩ ⟨x, mem_rows.mpr (.inl hx), rfl, hholds⟩

theorem Inv.holders_durable (h : Inv s) (hx : x ∈ s.records) (hholds : x.holds key) :
    holders s.records key = [x] := by
  refine holders_eq_singleton hx hholds h.recordIds fun y hy hyholds => ?_
  exact h.unique ⟨y, mem_rows.mpr (.inr hy), rfl, hyholds⟩ ⟨x, mem_rows.mpr (.inr hx), rfl, hholds⟩

/-- A session that holds a free key is not being created, so it is settled. -/
theorem Inv.settled_of_free (h : Inv s) (hfree : s.claims key = none) (ha : s.Holds a key) :
    (∀ {r}, s.requests a = some r → r.phase.claims = false) ∧ s.Settled a := by
  have hquiet : ∀ {r}, s.requests a = some r → r.phase.claims = false := by
    intro r hr
    rw [Bool.eq_false_iff]
    intro hclaims
    have hclaimed := h.claimed hr hclaims
    rw [← h.mine hr hclaims ha, hfree] at hclaimed
    cases hclaimed
  refine ⟨hquiet, (h.settled ha).resolve_left ?_⟩
  rintro ⟨r, hr, hphase⟩
  have hclaims := hquiet hr
  rw [hphase] at hclaims
  cases hclaims

theorem entryPhase_claimed {c : ClaimedCreate} (hc : s.claims key = some c) :
    s.entryPhase key fingerprint =
    .answered (if c.fingerprint = fingerprint then .inProgress c.sessionId
    else .conflict c.sessionId) := by
  rw [entryPhase, decideCreateRequest, hc]

theorem Inv.entryPhase_live (h : Inv s) (hfree : s.claims key = none) (hx : x ∈ s.sessions)
    (hholds : x.holds key) : s.entryPhase key fingerprint =
      if x.sameFingerprint fingerprint then .replaying x.sessionId
        else .answered (.conflict x.sessionId) := by
  have hrow : x ∈ s.rows := mem_rows.mpr (.inl hx)
  have hsettled : x.unsettled = false :=
    (h.settled_of_free hfree ⟨x, hrow, rfl, hholds⟩).2 x hrow rfl
  rw [entryPhase, decideCreateRequest, hfree, h.holders_live hx hholds]
  cases hsame : x.sameFingerprint fingerprint <;> simp [hsame, hsettled]

theorem entryPhase_free (hfree : s.claims key = none)
    (hnone : ∀ x ∈ s.sessions, x.holds key = false) : s.entryPhase key fingerprint = .checking := by
  rw [entryPhase, decideCreateRequest, hfree, holders_eq_nil.mpr hnone]

theorem submit_requests : (s.submit id key fingerprint).requests =
    Function.update s.requests id (some ⟨key, fingerprint, s.entryPhase key fingerprint⟩) := by
  unfold submit entryPhase
  dsimp only
  split <;> rfl

theorem decide_replay {sessionId : String}
    (h : decideCreateRequest s.claims s.sessions key fingerprint = .ok (.replay sessionId)) :
    s.claims key = none ∧ s.Holds sessionId key := by
  revert h
  fun_cases decideCreateRequest s.claims s.sessions key fingerprint <;> rintro ⟨⟩
  next hfree oldest more hcons _ _ _ =>
    have hmem : oldest ∈ holders s.sessions key := hcons ▸ mem_cons_self
    obtain ⟨hx, hholds⟩ := mem_holders.mp hmem
    exact ⟨hfree, oldest, mem_rows.mpr (.inl hx), rfl, hholds⟩

theorem Inv.submit (h : Inv s) (hid : id ∉ s.allocated) : Inv (s.submit id key fingerprint) := by
  have hclaimed : Claimed (s.submit id key fingerprint) := h.toClaimed.submit hid
  unfold Registry.submit at hclaimed ⊢
  dsimp only at hclaimed ⊢
  split at hclaimed
  · exact h.enter hid rfl nofun
  · rename_i sessionId hdecide
    obtain ⟨hfree, hholds⟩ := decide_replay hdecide
    refine h.enter hid rfl fun sessionId' heq => ?_
    cases heq
    refine ⟨?_, h.settled_of_free hfree hholds⟩
    obtain ⟨x, hx, rfl, -⟩ := hholds
    exact h.rowIds x hx
  · rename_i hdecide
    refine h.update hclaimed (subset_cons_self _ _) ⟨fun _ => (decide_fresh hdecide).2, nofun, ?_, nofun⟩
      (fun ⟨_, hr', _⟩ => absurd (h.requestIds hr') hid) fun hallocated => absurd hallocated hid
    -- the id is new: no row has it
    rintro _ key' ⟨x, hx, rfl, -⟩
    exact absurd (h.rowIds x hx) hid

/-- The store has no holder: neither has a live session come to be one. -/
theorem Inv.own_of_checked (h : Inv s) (hr : s.requests id = some r) (hphase : r.phase = .checking)
    {readable : Bool} (hchecked : s.checked r readable = .creating) (ha : s.Holds a r.key) :
    a = id := by
  obtain ⟨x, hx, -, hholds⟩ := ha
  exfalso
  rcases mem_rows.mp hx with hx | hx
  · rw [h.free hr hphase x hx] at hholds
    cases hholds
  · unfold checked durableHolderError at hchecked
    rw [h.holders_durable hx hholds] at hchecked
    split at hchecked
    · cases hchecked
    · split at hchecked
      · cases hchecked
      · rename_i hnone
        dsimp only at hnone
        split at hnone <;> cases hnone

theorem Inv.step (h : Inv s) {e : Event} (hstep : s.OrderlyStep e t) : Inv t := by
  obtain ⟨hstep, horderly⟩ := hstep
  have hclaimed := h.toClaimed.step hstep
  revert hstep
  unfold Step
  fun_cases Registry.step s e <;> rintro ⟨⟩
  next hid => exact h.submit hid
  next readable r hr hphase =>
    obtain ⟨hclaims, hchecking, hreplaying⟩ := checked_claims (s := s) (r := r) readable
    exact h.setPhase hr (by rw [hclaims, hphase]; rfl) hchecking (by rw [hphase]; nofun) hreplaying
      fun hcreating => h.own_of_checked hr hphase hcreating
  next hr => exact h.setPhase hr rfl nofun nofun nofun nofun
  next entry record r hr hphase => exact h.make hr hphase entry record
  next hr => exact h.leave hr rfl rfl nofun nofun
  next hr => exact h.leave hr rfl rfl nofun nofun
  next hr =>
    -- the create's session is committed or gone
    simp only [orderly, hr] at horderly
    exact h.leave hr rfl rfl nofun fun _ => .of_bool horderly
  next hr => exact h.setPhase hr rfl nofun nofun nofun nofun
  · exact h.shrink hclaimed filter_sublist (List.Sublist.refl _) rfl rfl
  · exact h.shrink hclaimed (List.Sublist.refl _) filter_sublist rfl rfl

end Steps

/-- A registry without requests whose keys are each held by one settled
session. -/
structure Coherent (s : Registry) : Prop where
  claims : s.claims = fun _ => none
  requests : s.requests = fun _ => none
  sessionIds : (s.sessions.map (·.sessionId)).Nodup
  recordIds : (s.records.map (·.sessionId)).Nodup
  rowIds : ∀ x ∈ s.rows, x.sessionId ∈ s.allocated
  unique : ∀ {key a b}, s.Holds a key → s.Holds b key → a = b
  settled : ∀ {a key}, s.Holds a key → s.Settled a

theorem Claimed.start {s : Registry} (hclaims : s.claims = fun _ => none)
    (hrequests : s.requests = fun _ => none) : Claimed s := by
  refine ⟨fun hr => ?_, fun hr => ?_, fun hc => ?_⟩
  · rw [hrequests] at hr; cases hr
  · rw [hrequests] at hr; cases hr
  · rw [hclaims] at hc; cases hc

theorem Coherent.inv {s : Registry} (h : Coherent s) : Inv s := by
  have hrequests : ∀ {id r}, s.requests id = some r → False := by
    intro id r hr
    rw [h.requests] at hr
    cases hr
  exact ⟨.start h.claims h.requests, h.sessionIds, h.recordIds, h.rowIds, h.unique,
    fun hr => (hrequests hr).elim,
    fun hr => (hrequests hr).elim, fun hr => (hrequests hr).elim, fun ha => .inr (h.settled ha),
    fun hr => (hrequests hr).elim⟩

/-! ### Answers -/

section Answers

variable {s t : Registry} {id key fingerprint : String} {r : Request}

theorem submit_answer (hstep : s.Step (.submit id key fingerprint) t) :
    t.requests id = some ⟨key, fingerprint, s.entryPhase key fingerprint⟩ := by
  simp only [Step, step] at hstep
  split at hstep
  · cases hstep
  · cases hstep
    rw [submit_requests, Function.update_self]

theorem Inv.free_of_unclaimed (h : Inv s)
    (hnone : ∀ a r, s.requests a = some r → r.phase.claims → r.key ≠ key) :
    s.claims key = none := by
  cases hclaim : s.claims key with
  | none => rfl
  | some c =>
    obtain ⟨phase, hr, hclaims⟩ := h.claimant hclaim
    exact absurd rfl (hnone _ _ hr hclaims)

/-- Nothing of a session that answers is unsettled. -/
theorem Inv.load_answer (h : Inv s) (hr : s.requests id = some r) {sessionId : String}
    (hphase : r.phase = .replaying sessionId) {readable : Bool}
    (hstep : s.Step (.load id readable) t) :
    t.requests id =
    some { r with phase := .answered (if readable then .replay sessionId else .storeFailed) } := by
  obtain ⟨key, fingerprint, phase⟩ := r
  subst hphase
  obtain ⟨-, -, hsettled⟩ := h.replaying hr rfl
  have hquiet : (s.records.any fun x => x.sessionId = sessionId && x.unsettled) = false := by
    rw [any_eq_false]
    intro x hx hboth
    rw [Bool.and_eq_true, decide_eq_true_eq] at hboth
    rw [hsettled x (mem_rows.mpr (.inr hx)) hboth.1] at hboth
    cases hboth.2
  unfold Step Registry.step at hstep
  dsimp only at hstep
  rw [hr] at hstep
  cases hstep
  show Function.update s.requests id _ id = _
  rw [Function.update_self, loaded, hquiet]
  cases readable <;> rfl

theorem Inv.check_answer (h : Inv s) (hr : s.requests id = some r) (hphase : r.phase = .checking)
    {readable : Bool} (hstep : s.Step (.check id readable) t) :
    ∃ phase, t.requests id = some { r with phase := phase } ∧
      (readable = false → phase = .refused .storeFailed) ∧
      (readable → (∀ x ∈ s.records, x.holds r.key → phase = .refused
          (if x.sameFingerprint r.fingerprint then .inProgress x.sessionId
          else .conflict x.sessionId)) ∧
        ((∀ x ∈ s.records, x.holds r.key = false) → phase = .creating)) := by
  unfold Step Registry.step at hstep
  dsimp only at hstep
  rw [hr] at hstep
  dsimp only at hstep
  rw [if_pos hphase] at hstep
  cases hstep
  refine ⟨_, Function.update_self .., fun hunread => ?_,
    fun hread => ⟨fun x hx hholds => ?_, fun hnone => ?_⟩⟩
  · rw [checked, if_pos hunread]
  · rw [checked, durableHolderError, h.holders_durable hx hholds]
    cases hsame : x.sameFingerprint r.fingerprint <;> simp [hsame, hread]
  · rw [checked, durableHolderError, holders_eq_nil.mpr hnone, hread]
    rfl

/-- A request that was refused drops its claim and answers. -/
theorem drop_answer (hr : s.requests id = some r) {answer : Answer}
    (hphase : r.phase = .refused answer) (hstep : s.Step (.drop id) t) :
    t.requests id = some { r with phase := .answered answer } := by
  obtain ⟨key, fingerprint, phase⟩ := r
  subst hphase
  unfold Step Registry.step at hstep
  dsimp only at hstep
  rw [hr] at hstep
  cases hstep
  exact Function.update_self ..

/-- **Keyed creates happen once.** From a registry whose keys are each held by
one settled session, in any run whose creates drop their claim only once their
session is committed or gone: at most one create of a key runs; one session
holds a key, the running create's where one runs. A request that finds a claim
gets `in_progress` for the same fingerprint, else a conflict; one that finds a
live session gets a conflict for another fingerprint, and for the same one is
answered with that session as soon as its record was read, unless the read
fails; one that finds neither creates only where the records could be read and
none holds the key, and else answers why once it dropped its claim. -/
theorem keyed_create_once {start : Registry} (hstart : Coherent start) {tr : List Event}
    (h : Run OrderlyStep start tr s) :
    (∀ a b r r', s.requests a = some r → s.requests b = some r' → r.phase = .creating →
      r'.phase = .creating → r.key = r'.key → a = b) ∧
    (∀ key a b, s.Holds a key → s.Holds b key → a = b) ∧
    (∀ id r, s.requests id = some r → r.phase = .creating → ∀ a, s.Holds a r.key → a = id) ∧
    (∀ id key fingerprint t, s.Step (.submit id key fingerprint) t → ∃ phase,
      t.requests id = some ⟨key, fingerprint, phase⟩ ∧
      (∀ a r, s.requests a = some r → r.phase.claims → r.key = key →
        phase = .answered (if r.fingerprint = fingerprint then .inProgress a else .conflict a)) ∧
      ((∀ a r, s.requests a = some r → r.phase.claims → r.key ≠ key) →
        (∀ x ∈ s.sessions, x.holds key → phase =
          if x.sameFingerprint fingerprint then .replaying x.sessionId
            else .answered (.conflict x.sessionId)) ∧
        ((∀ x ∈ s.sessions, x.holds key = false) → phase = .checking))) ∧
    (∀ id r sessionId readable t, s.requests id = some r → r.phase = .replaying sessionId →
      s.Step (.load id readable) t → t.requests id =
      some { r with phase := .answered (if readable then .replay sessionId else .storeFailed) }) ∧
    (∀ id r readable t, s.requests id = some r → r.phase = .checking →
      s.Step (.check id readable) t → ∃ phase, t.requests id = some { r with phase := phase } ∧
        (readable = false → phase = .refused .storeFailed) ∧
        (readable → (∀ x ∈ s.records, x.holds r.key → phase = .refused
            (if x.sameFingerprint r.fingerprint then .inProgress x.sessionId
            else .conflict x.sessionId)) ∧
          ((∀ x ∈ s.records, x.holds r.key = false) → phase = .creating))) ∧
    ∀ id r answer t, s.requests id = some r → r.phase = .refused answer → s.Step (.drop id) t →
      t.requests id = some { r with phase := .answered answer } := by
  have hinv : Inv s := h.invariant hstart.inv fun hs hstep => hs.step hstep
  refine ⟨?_, fun _ _ _ ha hb => hinv.unique ha hb,
    fun _ _ hr hphase _ ha => hinv.own hr hphase ha, ?_,
    fun _ _ _ _ _ hr hphase hstep => hinv.load_answer hr hphase hstep,
    fun _ _ _ _ hr hphase hstep => hinv.check_answer hr hphase hstep,
    fun _ _ _ _ hr hphase hstep => drop_answer hr hphase hstep⟩
  · intro a b r r' hr hr' hphase hphase' hkey
    exact hinv.claim_unique hr' hr (by rw [hphase']; rfl) (by rw [hphase]; rfl) hkey
  · intro id key fingerprint t hstep
    refine ⟨_, submit_answer hstep, fun a r hr hclaims hkey => ?_, fun hnone => ?_⟩
    · subst hkey
      exact entryPhase_claimed (hinv.claimed hr hclaims)
    · have hfree := hinv.free_of_unclaimed hnone
      exact ⟨fun x hx hholds => hinv.entryPhase_live hfree hx hholds,
        fun hfreeLive => entryPhase_free hfree hfreeLive⟩

end Answers

/-! A registry without sessions, and a create of one key that settles. -/

def empty : Registry := ⟨fun _ => none, [], [], fun _ => none, []⟩

theorem empty_coherent : Coherent empty where
  claims := rfl
  requests := rfl
  sessionIds := nodup_nil
  recordIds := nodup_nil
  rowIds _ hx := absurd hx not_mem_nil
  unique := fun ⟨_, hx, _⟩ => absurd hx not_mem_nil
  settled := fun ⟨_, hx, _⟩ => absurd hx not_mem_nil

/-- The create writes its intent, registers its session, delivers the input
and is done. A repeat meanwhile is told so. -/
def createRun : List Event :=
  [.submit "s-1" "key-1" "v1:aa", .check "s-1" true, .make "s-1" none (some (0, true)),
    .submit "s-2" "key-1" "v1:aa",
    .make "s-1" (some (0, true)) (some (0, true)), .submit "s-3" "key-1" "v1:bb",
    .make "s-1" (some (0, false)) (some (0, false)), .drop "s-1", .submit "s-4" "key-1" "v1:bb",
    .submit "s-5" "key-1" "v1:aa"]

def phaseOf (s : Registry) (id : String) : Option Phase := (s.requests id).map (·.phase)

theorem keyed_create_once_sample : ∃ s t, Run OrderlyStep empty createRun s ∧
    (["s-2", "s-3", "s-4", "s-5"].map s.phaseOf = [some (.answered (.inProgress "s-1")),
      some (.answered (.conflict "s-1")), some (.answered (.conflict "s-1")),
      some (.replaying "s-1")]) ∧
    s.Step (.load "s-5" true) t ∧ t.phaseOf "s-5" = some (.answered (.replay "s-1")) ∧
    ∀ key a b, s.Holds a key → s.Holds b key → a = b := by
  have hrun := (Runs.steps_get (Runs.guarded step orderly) empty createRun (by decide +kernel)).mono
    Runs.guarded_eq_some
  exact ⟨_, _, hrun, by decide +kernel,
    (Option.some_get (by decide +kernel)).symm, by decide +kernel,
    (keyed_create_once empty_coherent hrun).2.1⟩

/-- **A repeat can fail.** The repeat of a settled create, made after its claim
was dropped, gets no session when its record cannot be read. -/
theorem repeat_fails : ∃ s t, Run OrderlyStep empty createRun s ∧ s.claims "key-1" = none ∧
    s.sessions = [⟨"s-1", 0, some ⟨"key-1", "v1:aa"⟩, false⟩] ∧ s.Step (.load "s-5" false) t ∧
    t.requests "s-5" = some ⟨"key-1", "v1:aa", .answered .storeFailed⟩ := by
  have hrun := (Runs.steps_get (Runs.guarded step orderly) empty createRun (by decide +kernel)).mono
    Runs.guarded_eq_some
  exact ⟨_, _, hrun, by decide +kernel, by decide +kernel,
    (Option.some_get (by decide +kernel)).symm, by decide +kernel⟩

/-- **No claim outlives its request.** A claimed key is that of a request that
still claims it, so once every request is answered every key is free again. -/
theorem claims_not_leaked {start s : Registry} (hclaims : start.claims = fun _ => none)
    (hrequests : start.requests = fun _ => none) {tr : List Event} (h : Run Step start tr s)
    (key : String) :
    (∀ c, s.claims key = some c → ∃ phase,
      s.requests c.sessionId = some ⟨key, c.fingerprint, phase⟩ ∧ phase.claims) ∧
    ((∀ id r, s.requests id = some r → r.phase.claims = false) → s.claims key = none) := by
  have hinv : Claimed s := h.invariant (.start hclaims hrequests) fun hs hstep => hs.step hstep
  refine ⟨fun c hc => hinv.claimant hc, fun hanswered => ?_⟩
  by_contra hne
  obtain ⟨c, hc⟩ := Option.ne_none_iff_exists'.mp hne
  obtain ⟨phase, hr, hclaims⟩ := hinv.claimant hc
  exact Bool.false_ne_true ((hanswered _ _ hr).symm.trans hclaims)

theorem claims_not_leaked_sample : ∃ s, Run Step empty (createRun.take 4) s ∧ ∃ phase,
    s.requests "s-1" = some ⟨"key-1", "v1:aa", phase⟩ ∧ phase.claims := by
  have hrun : Run Step empty (createRun.take 4) _ := Runs.steps_get _ _ _ (by decide +kernel)
  exact ⟨_, hrun, (claims_not_leaked rfl rfl hrun "key-1").1 ⟨"s-1", "v1:aa"⟩ (by decide +kernel)⟩

end Registry

end Pohunek.Create
