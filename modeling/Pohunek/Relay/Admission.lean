/-
# The relay's admission authority

`Authority` of `crates/relay/src/admission/mod.rs`: requests are admitted after
a permission check against the database, and mutations that take permissions
away cancel the guards they affect.

A call is what a task is in the middle of; `advance` takes it to its next await
or its next lock, so that any other call may come in between. `ok = false` is
a failure there, or the future dropped; the `close_all` that some failures make
is a call of its own, free to come at any time. The database is the number of commits
(`version`): a permission check reads the current one, and a mutation's effect
is visible from its commit on. An active guard remembers what its check read.

A mutation holds the gate (`mutations`) from before it raises the epoch to
after its commit, and an admission registers only with the gate free and the
epoch as it observed it. So what a registered guard read is older than a commit
only where it registered before that mutation raised the epoch, and then the
mutation cancelled it (`no_stale_admission`).
-/
import Pohunek.Lib.Run

namespace Pohunek.Relay

open List

open Runs (Run)

structure AuthorityLimits where
  global : ℕ
  perTeam : ℕ
  perPrincipal : ℕ
  deriving DecidableEq

structure AuthorizationRequest where
  teamId : ℕ
  principalId : ℕ
  authenticationId : ℕ
  deriving DecidableEq

/-- A registered guard; `readAt` is the database its permission check read. -/
structure Active where
  id : ℕ
  teamId : ℕ
  principalId : ℕ
  authenticationId : ℕ
  cancelled : Bool
  readAt : ℕ
  deriving DecidableEq

inductive ScopeKind
  | credential | principal | membership | team | policy | global | recovery
  deriving DecidableEq

structure RevocationCommand where
  scopeKind : ScopeKind
  scopeId : ℕ
  teamId : Option ℕ
  deriving DecidableEq

/-- `validate_command`: the scopes of a team name it. -/
def RevocationCommand.valid (c : RevocationCommand) : Bool :=
  (c.scopeKind = .team || c.scopeKind = .membership || c.scopeKind = .policy) == c.teamId.isSome

inductive AuthMutationTarget
  | credential (credentialId : ℕ)
  | principal (principalId : ℕ)
  deriving DecidableEq

/-- The mutations: `revoke`, `commit_auth_mutation`, the management commands of
a team, and `create_team`, which affects no guard. -/
inductive Mutation
  | revoke (command : RevocationCommand)
  | auth (target : AuthMutationTarget)
  | management (teamId : ℕ)
  | createTeam
  deriving DecidableEq

def RevocationCommand.affects (c : RevocationCommand) (a : Active) : Bool :=
  match c.scopeKind with
  | .credential => a.authenticationId = c.scopeId
  | .principal => a.principalId = c.scopeId
  | .membership | .team | .policy => some a.teamId = c.teamId
  | .global | .recovery => true

def AuthMutationTarget.affects (t : AuthMutationTarget) (a : Active) : Bool :=
  match t with
  | .credential credentialId => a.authenticationId = credentialId
  | .principal principalId => a.principalId = principalId

def Mutation.affects (m : Mutation) (a : Active) : Bool :=
  match m with
  | .revoke command => command.affects a
  | .auth target => target.affects a
  | .management teamId => a.teamId = teamId
  | .createTeam => false

def Mutation.valid : Mutation → Bool
  | .revoke command => command.valid
  | _ => true

/-- Whether the mutation verifies the fence before its commit, and with it that
the authority is open. -/
def Mutation.fenced : Mutation → Bool
  | .createTeam => false
  | _ => true

inductive AdmitPhase
  | entered
  | observed (epoch : ℕ)
  | checked (epoch readAt : ℕ)
  | returned (guard : Option ℕ)
  deriving DecidableEq

/-- From `begin_mutation` on. A mutation that fails or is dropped goes through
the drop of its gate. -/
inductive MutationPhase
  | begun
  | denied
  | verified
  | committed (version : ℕ)
  | completed (version : ℕ)
  | dropped
  | failedSet
  | closedSet
  | aborted
  deriving DecidableEq

/-- `close_all`, and `begin_stop`, which leaves `failed` alone. -/
inductive ClosePhase
  | entered
  | failedSet
  | closedSet
  | returned
  deriving DecidableEq

/-- `AccessGuard::validate`. `returned closes` says whether it closed the
authority. -/
inductive ValidatePhase
  | entered
  | leaseFailed
  | leaseClosed
  | denied (dirty : Bool)
  | deniedFailed
  | returned (closes : Bool)
  deriving DecidableEq

inductive ReleasePhase
  | entered
  | closedSet
  | swept
  | empty
  | returned (ok : Bool)
  deriving DecidableEq

inductive Call
  | admission (request : AuthorizationRequest) (phase : AdmitPhase)
  | mutate (mutation : Mutation) (phase : MutationPhase)
  | close (dirty : Bool) (phase : ClosePhase)
  | validate (id : ℕ) (phase : ValidatePhase)
  | release (phase : ReleasePhase)
  deriving DecidableEq

/-- What the calls share. -/
structure Registry where
  next : ℕ
  epoch : ℕ
  mutations : ℕ
  active : List Active
  closed : Bool
  failed : Bool
  version : ℕ
  deriving DecidableEq

structure Authority where
  registry : Registry
  calls : List Call
  deriving DecidableEq

namespace Registry

variable (s : Registry)

def cancelWhere (p : Active → Bool) : Registry :=
  { s with active := s.active.map fun a => { a with cancelled := a.cancelled || p a } }

def cancelAll : Registry := s.cancelWhere fun _ => true

def cancelGuard (id : ℕ) : Registry := s.cancelWhere fun a => a.id = id

variable (limits : AuthorityLimits) (s : Registry) (r : AuthorizationRequest)

/-- There is room for the request. -/
def room : Bool :=
  s.active.length < limits.global &&
    (s.active.filter fun a => a.teamId = r.teamId).length < limits.perTeam &&
    (s.active.filter fun a => a.principalId = r.principalId).length < limits.perPrincipal

def guardOf (r : AuthorizationRequest) (readAt : ℕ) : Active :=
  ⟨s.next, r.teamId, r.principalId, r.authenticationId, false, readAt⟩

/-- The last part of `admit`, under the lock. -/
def register (epoch readAt : ℕ) :
    Registry × AdmitPhase :=
  if s.mutations ≠ 0 ∨ s.epoch ≠ epoch then (s, .returned none)
  else if s.room limits r = false then (s, .returned none)
  else if s.next + 1 < 2 ^ 64 then
    ({ s with next := s.next + 1, active := s.active ++ [s.guardOf r readAt] },
      .returned (some s.next))
  else (s, .returned none)

def advanceAdmit (ok : Bool) :
    AdmitPhase → Option (Registry × AdmitPhase)
  | .entered => some (s, if ok && decide (s.mutations = 0) then .observed s.epoch
    else .returned none)
  | .observed epoch => some (s, if ok then .checked epoch s.version else .returned none)
  | .checked epoch readAt =>
    some (if ok then s.register limits r epoch readAt else (s, .returned none))
  | .returned _ => none

def advanceMutation (m : Mutation) (ok : Bool) : MutationPhase → Option (Registry × MutationPhase)
  | .begun =>
    some (if ok && decide (s.epoch + 1 < 2 ^ 64) then
      ({ s with epoch := s.epoch + 1 }.cancelWhere m.affects, .denied)
      else (s, .dropped))
  | .denied => some (s, if ok && !(m.fenced && s.closed) then .verified else .dropped)
  | .verified =>
    some (if ok then ({ s with version := s.version + 1 }, .committed (s.version + 1))
      else (s, .dropped))
  | .committed version =>
    some (if ok then ({ s with mutations := s.mutations - 1 }, .completed version)
      else (s, .dropped))
  -- the drop of the gate
  | .dropped => some ({ s with failed := true }, .failedSet)
  | .failedSet => some ({ s with closed := true }, .closedSet)
  | .closedSet => some ({ s with mutations := s.mutations - 1 }.cancelAll, .aborted)
  | .completed _ | .aborted => none

def advanceClose (dirty : Bool) : ClosePhase → Option (Registry × ClosePhase)
  | .entered => some ({ s with failed := s.failed || dirty }, .failedSet)
  | .failedSet => some ({ s with closed := true }, .closedSet)
  | .closedSet => some (s.cancelAll, .returned)
  | .returned => none

/-- `ok = false` is a failed lease; a refused permission is told by `dirty`,
false where it is `Forbidden`. -/
def advanceValidate (id : ℕ) (ok : Bool) (refused : Option Bool) :
    ValidatePhase → Option (Registry × ValidatePhase)
  | .entered =>
    some (if ok = false then ({ s with failed := true }, .leaseFailed)
      else
        match refused with
        | some dirty => (s.cancelGuard id, .denied dirty)
        | none => (s, .returned false))
  | .leaseFailed => some ({ s with closed := true }, .leaseClosed)
  | .leaseClosed => some (s.cancelGuard id, .returned true)
  | .denied dirty =>
    some (if dirty then ({ s with failed := true }, .deniedFailed) else (s, .returned false))
  | .deniedFailed => some ({ s with closed := true }, .returned true)
  | .returned _ => none

def advanceRelease (ok : Bool) : ReleasePhase → Option (Registry × ReleasePhase)
  | .entered => some ({ s with closed := true }, .closedSet)
  | .closedSet => some (s.cancelAll, .swept)
  | .swept => some (s, if ok && s.active.isEmpty then .empty else .returned false)
  | .empty => some (s, .returned ok)
  | .returned _ => none

def advance (limits : AuthorityLimits) (s : Registry) (ok : Bool) (refused : Option Bool) :
    Call → Option (Registry × Call)
  | .admission r phase => (s.advanceAdmit limits r ok phase).map fun x => (x.1, .admission r x.2)
  | .mutate m phase => (s.advanceMutation m ok phase).map fun x => (x.1, .mutate m x.2)
  | .close dirty phase => (s.advanceClose dirty phase).map fun x => (x.1, .close dirty x.2)
  | .validate id phase => (s.advanceValidate id ok refused phase).map fun x =>
    (x.1, .validate id x.2)
  | .release phase => (s.advanceRelease ok phase).map fun x => (x.1, .release x.2)

end Registry

inductive Event
  | admission (request : AuthorizationRequest)
  | mutate (mutation : Mutation)
  | close (dirty : Bool)
  | validate (id : ℕ)
  | release
  | dropGuard (id : ℕ)
  | next (i : ℕ) (ok : Bool) (refused : Option Bool)
  deriving DecidableEq

namespace Authority

def initial : Authority := ⟨⟨1, 1, 0, [], false, false, 0⟩, []⟩

def enter (s : Authority) (c : Call) : Authority := { s with calls := s.calls ++ [c] }

def step (limits : AuthorityLimits) (s : Authority) : Event → Option Authority
  | .admission request => if s.registry.closed then none
    else some (s.enter (.admission request .entered))
  | .mutate m =>
    if s.registry.closed = false ∧ s.registry.mutations = 0 ∧ m.valid = true then
      some ({ s with registry := { s.registry with mutations := s.registry.mutations + 1 } }.enter
        (.mutate m .begun))
    else none
  | .close dirty => some (s.enter (.close dirty .entered))
  | .validate id =>
    if s.registry.closed = false ∧ (s.registry.active.any fun a => a.id = id && !a.cancelled) then
      some (s.enter (.validate id .entered))
    else none
  | .release => if s.registry.failed then none else some (s.enter (.release .entered))
  | .dropGuard id =>
    some { s with
      registry := { s.registry with active := s.registry.active.filter fun a => a.id ≠ id } }
  | .next i ok refused =>
    match s.calls[i]? with
    | some c => (s.registry.advance limits ok refused c).map fun x => ⟨x.1, s.calls.set i x.2⟩
    | none => none

def Step (limits : AuthorityLimits) (s : Authority) (e : Event) (t : Authority) :
    Prop := s.step limits e = some t

end Authority

/-! ### What a call stands for -/

namespace Call

/-- The mutation has begun and not completed. -/
def gated : Call → Bool
  | .mutate _ (.completed _) | .mutate _ .aborted => false
  | .mutate _ _ => true
  | _ => false

/-- The mutation has raised the epoch and may still commit, or has. -/
def denying : Call → Bool
  | .mutate _ .denied | .mutate _ .verified | .mutate _ (.committed _) => true
  | _ => false

/-- The database of the mutation's commit. -/
def commitOf : Call → Option ℕ
  | .mutate _ (.committed version) | .mutate _ (.completed version) => some version
  | _ => none

/-- The epoch the admission observed. -/
def epochOf : Call → Option ℕ
  | .admission _ (.observed epoch) | .admission _ (.checked epoch _) => some epoch
  | _ => none

/-- The database the admission's permission check read. -/
def readOf : Call → Option ℕ
  | .admission _ (.checked _ readAt) => some readAt
  | _ => none

/-- The mutation wants the guard cancelled: it affects it, and the guard's
check read nothing of the commit. -/
def revokes (a : Active) : Call → Bool
  | .mutate m .denied | .mutate m .verified => m.affects a
  | .mutate m (.committed version) | .mutate m (.completed version) =>
    m.affects a && decide (a.readAt < version)
  | _ => false

/-- The gate of a mutation that did not complete was dropped. -/
def gateDropped : Call → Bool
  | .mutate _ .closedSet | .mutate _ .aborted => true
  | _ => false

end Call

/-- What a later call may no longer stand for. -/
structure Call.Weaker (c c' : Call) : Prop where
  denying : c'.denying → c.denying
  commits : ∀ v ∈ c'.commitOf, v ∈ c.commitOf
  epochs : ∀ e ∈ c'.epochOf, e ∈ c.epochOf
  reads : ∀ v ∈ c'.readOf, v ∈ c.readOf
  revokes : ∀ a, c'.revokes a → c.revokes a

namespace Registry

/-- The registry changes by cancellations and closing, and at the gate. -/
structure Closes (s t : Registry) : Prop where
  epoch : t.epoch = s.epoch
  version : t.version = s.version
  closed : s.closed → t.closed
  active : ∃ p : Active → Bool,
    t.active = s.active.map fun a => { a with cancelled := a.cancelled || p a }

theorem Closes.of_active {s t : Registry}
    (hsame : (t.epoch, t.version, t.active) = (s.epoch, s.version, s.active) := by rfl)
    (hclosed : s.closed → t.closed := by first | exact fun h => h | exact fun _ => rfl) :
    Closes s t := by
  simp only [Prod.mk.injEq] at hsame
  obtain ⟨hepoch, hversion, hactive⟩ := hsame
  exact ⟨hepoch, hversion, hclosed, fun _ => false, by simp [hactive]⟩

theorem Closes.refl (s : Registry) : Closes s s := .of_active

theorem Closes.cancelWhere (s : Registry) (p : Active → Bool) : Closes s (s.cancelWhere p) :=
  ⟨rfl, rfl, id, p, rfl⟩

end Registry

/-- The numbers of guards are within the limits. -/
structure Within (limits : AuthorityLimits) (active : List Active) : Prop where
  global : active.length ≤ limits.global
  team : ∀ teamId, (active.filter fun a => a.teamId = teamId).length ≤ limits.perTeam
  principal : ∀ principalId, (active.filter fun a => a.principalId = principalId).length ≤
    limits.perPrincipal

variable {limits : AuthorityLimits}

theorem Within.filter {active : List Active} (h : Within limits active) (p : Active → Bool) :
    Within limits (active.filter p) where
  global := (length_filter_le _ _).trans h.global
  team teamId := (filter_sublist.filter _).length_le.trans (h.team teamId)
  principal principalId := (filter_sublist.filter _).length_le.trans (h.principal principalId)

/-- Cancelling counts nothing. -/
theorem Within.cancel {active : List Active} (h : Within limits active) (p : Active → Bool) :
    Within limits (active.map fun a => { a with cancelled := a.cancelled || p a }) where
  global := (length_map _).trans_le h.global
  team teamId := by
    rw [filter_map, length_map]
    exact h.team teamId
  principal principalId := by
    rw [filter_map, length_map]
    exact h.principal principalId

theorem length_filter_append_le {α : Type*} {l : List α} {p : α → Bool} {x : α} {n : ℕ}
    (hold : (l.filter p).length ≤ n) (hroom : p x → (l.filter p).length < n) :
    ((l ++ [x]).filter p).length ≤ n := by
  cases hx : p x with
  | false => simpa [hx] using hold
  | true => simpa [hx] using hroom hx

theorem Within.register {s : Registry} (h : Within limits s.active) {r : AuthorizationRequest}
    (hroom : s.room limits r) (readAt : ℕ) : Within limits (s.active ++ [s.guardOf r readAt]) := by
  simp only [Registry.room, Bool.and_eq_true, decide_eq_true_eq] at hroom
  obtain ⟨⟨hglobal, hteam⟩, hprincipal⟩ := hroom
  refine ⟨?_, fun teamId => ?_, fun principalId => ?_⟩
  · rw [length_append]
    exact hglobal
  · refine length_filter_append_le (h.team teamId) fun hsame => ?_
    have hsame' : r.teamId = teamId := of_decide_eq_true hsame
    rw [← hsame']
    exact hteam
  · refine length_filter_append_le (h.principal principalId) fun hsame => ?_
    have hsame' : r.principalId = principalId := of_decide_eq_true hsame
    rw [← hsame']
    exact hprincipal

/-! ### The gate -/

/-- At most one mutation has the gate, and the gate says so. -/
structure Gate (mutations : ℕ) (calls : List Call) : Prop where
  one : mutations ≤ 1
  held : ∀ {i : ℕ} {c : Call}, calls[i]? = some c → c.gated →
    mutations = 1 ∧ ∀ {j : ℕ} {d : Call}, calls[j]? = some d → d.gated → j = i

section GateLemmas

variable {mutations i : ℕ} {calls : List Call} {c c' : Call}

theorem Gate.free (h : Gate 0 calls) : ∀ d ∈ calls, d.gated = false := by
  intro d hd
  rw [Bool.eq_false_iff]
  intro hgated
  obtain ⟨j, hj⟩ := mem_iff_getElem?.mp hd
  cases (h.held hj hgated).1

variable {d : Call}

theorem getElem?_set_cases {j : ℕ} (h : (calls.set i c)[j]? = some d) :
    i = j ∧ d = c ∨ i ≠ j ∧ calls[j]? = some d := by
  rw [getElem?_set] at h
  split_ifs at h with hij hlt
  · exact .inl ⟨hij, (Option.some.inj h).symm⟩
  · exact .inr ⟨hij, h⟩

theorem Gate.keep (h : Gate mutations calls) (hc : calls[i]? = some c)
    (hgated : c'.gated = c.gated) : Gate mutations (calls.set i c') := by
  have hold : ∀ {j : ℕ} {d : Call}, (calls.set i c')[j]? = some d → d.gated →
      ∃ d', calls[j]? = some d' ∧ d'.gated := by
    intro j d hd hdgated
    rcases getElem?_set_cases hd with ⟨rfl, rfl⟩ | ⟨-, hd⟩
    · exact ⟨c, hc, hgated.symm.trans hdgated⟩
    · exact ⟨d, hd, hdgated⟩
  refine ⟨h.one, fun hd hdgated => ?_⟩
  obtain ⟨d', hd', hgated'⟩ := hold hd hdgated
  obtain ⟨hone, honly⟩ := h.held hd' hgated'
  refine ⟨hone, fun hj hjgated => ?_⟩
  obtain ⟨d'', hd'', hgated''⟩ := hold hj hjgated
  exact honly hd'' hgated''

theorem Gate.leave (h : Gate mutations calls) (hc : calls[i]? = some c) (hgated : c.gated)
    (hleft : c'.gated = false) : Gate (mutations - 1) (calls.set i c') := by
  obtain ⟨hone, honly⟩ := h.held hc hgated
  refine ⟨by omega, fun {j d} hd hdgated => ?_⟩
  rcases getElem?_set_cases hd with ⟨-, rfl⟩ | ⟨hij, hd⟩
  · rw [hleft] at hdgated
    cases hdgated
  · exact absurd (honly hd hdgated).symm hij

theorem getElem?_snoc {j : ℕ} (h : (calls ++ [c])[j]? = some d) :
    calls[j]? = some d ∨ j = calls.length ∧ d = c := by
  rw [getElem?_append] at h
  split at h
  · exact .inl h
  · have hlast := (List.getElem?_eq_some_iff.mp h).1
    simp only [length_singleton] at hlast
    exact .inr ⟨by omega, mem_singleton.mp (mem_of_getElem? h)⟩

theorem Gate.enter (h : Gate mutations calls) (hc : c.gated = false) :
    Gate mutations (calls ++ [c]) := by
  have hold : ∀ {j : ℕ} {d : Call}, (calls ++ [c])[j]? = some d → d.gated → calls[j]? = some d := by
    intro j d hd hdgated
    refine (getElem?_snoc hd).resolve_right ?_
    rintro ⟨-, rfl⟩
    rw [hc] at hdgated
    cases hdgated
  refine ⟨h.one, fun hd hdgated => ?_⟩
  obtain ⟨hone, honly⟩ := h.held (hold hd hdgated) hdgated
  exact ⟨hone, fun hj hjgated => honly (hold hj hjgated) hjgated⟩

theorem Gate.begin (h : Gate 0 calls) (c : Call) : Gate 1 (calls ++ [c]) := by
  have hnew : ∀ {j : ℕ} {d : Call}, (calls ++ [c])[j]? = some d → d.gated → j = calls.length := by
    intro j d hd hdgated
    rcases getElem?_snoc hd with hd | ⟨hj, -⟩
    · rw [h.free d (mem_of_getElem? hd)] at hdgated
      cases hdgated
    · exact hj
  exact ⟨Nat.le_refl 1,
    fun hd hdgated => ⟨rfl, fun hj hjgated => (hnew hj hjgated).trans (hnew hd hdgated).symm⟩⟩

theorem gated_of_denying (h : d.denying) : d.gated := by
  revert h
  fun_cases Call.denying d <;> first | exact fun _ => rfl | nofun

end GateLemmas

/-! ### The invariant -/

structure Admissions (limits : AuthorityLimits) (s : Authority) : Prop where
  gate : Gate s.registry.mutations s.calls
  dropped : ∀ c ∈ s.calls, c.gateDropped → s.registry.closed
  commits : ∀ c ∈ s.calls, ∀ v ∈ c.commitOf, v ≤ s.registry.version
  epochs : ∀ c ∈ s.calls, ∀ e ∈ c.epochOf, e ≤ s.registry.epoch
  -- an admission at the current epoch has no mutation past its denial beside it
  quiet : ∀ c ∈ s.calls, s.registry.epoch ∈ c.epochOf → ∀ d ∈ s.calls, d.denying = false
  -- and its check read every commit so far
  fresh : ∀ c ∈ s.calls, s.registry.epoch ∈ c.epochOf → ∀ v ∈ c.readOf, ∀ d ∈ s.calls,
    ∀ w ∈ d.commitOf, w ≤ v
  revoked : ∀ a ∈ s.registry.active, ∀ c ∈ s.calls, c.revokes a → a.cancelled
  within : Within limits s.registry.active

section Steps

variable {limits : AuthorityLimits} {s : Authority} {t : Registry} {i : ℕ} {c c' : Call}

theorem Admissions.initial (limits : AuthorityLimits) : Admissions limits .initial where
  gate := ⟨Nat.zero_le _, fun h => by simp [Authority.initial] at h⟩
  dropped _ h := absurd h not_mem_nil
  commits _ h := absurd h not_mem_nil
  epochs _ h := absurd h not_mem_nil
  quiet _ h := absurd h not_mem_nil
  fresh _ h := absurd h not_mem_nil
  revoked _ h := absurd h not_mem_nil
  within := ⟨Nat.zero_le _, fun _ => Nat.zero_le _, fun _ => Nat.zero_le _⟩

variable {r : Registry}

/-- Cancelling more guards leaves none that a call revokes. -/
theorem revoked_of_closes {t : Registry} (hcloses : r.Closes t) {d : Call}
    (hrevokes : ∀ a ∈ r.active, d.revokes a → a.cancelled) :
    ∀ a ∈ t.active, d.revokes a → a.cancelled := by
  obtain ⟨p, hp⟩ := hcloses.active
  intro a ha hd
  rw [hp] at ha
  obtain ⟨b, hb, rfl⟩ := mem_map.mp ha
  rw [hrevokes b hb hd, Bool.true_or]

theorem within_of_closes {t : Registry} (hcloses : r.Closes t) (h : Within limits r.active) :
    Within limits t.active := by
  obtain ⟨p, hp⟩ := hcloses.active
  rw [hp]
  exact h.cancel p

/-- What holds of each call. -/
structure Stands (r : Registry) (c : Call) : Prop where
  dropped : c.gateDropped → r.closed
  commits : ∀ v ∈ c.commitOf, v ≤ r.version
  epochs : ∀ e ∈ c.epochOf, e ≤ r.epoch
  revoked : ∀ a ∈ r.active, c.revokes a → a.cancelled

/-- What holds of a call beside another. -/
structure Beside (r : Registry) (c d : Call) : Prop where
  quiet : r.epoch ∈ c.epochOf → d.denying = false
  fresh : r.epoch ∈ c.epochOf → ∀ v ∈ c.readOf, ∀ w ∈ d.commitOf, w ≤ v

theorem Admissions.stands (h : Admissions limits s) (hc : c ∈ s.calls) : Stands s.registry c :=
  ⟨h.dropped c hc, h.commits c hc, h.epochs c hc, fun a ha => h.revoked a ha c hc⟩

theorem Admissions.beside (h : Admissions limits s) (hc : c ∈ s.calls) {d : Call}
    (hd : d ∈ s.calls) : Beside s.registry c d :=
  ⟨fun he => h.quiet c hc he d hd, fun he v hv => h.fresh c hc he v hv d hd⟩

/-- One call is new, or changed. -/
theorem Admissions.of_calls {old calls : List Call} (hmem : ∀ d ∈ calls, d ∈ old ∨ d = c')
    (hgate : Gate t.mutations calls) (hwithin : Within limits t.active)
    (hold : ∀ d ∈ old, Stands t d) (hnew : Stands t c')
    (hpairs : ∀ c ∈ old, ∀ d ∈ old, Beside t c d) (hleft : ∀ d ∈ old, Beside t c' d)
    (hright : ∀ d ∈ old, Beside t d c') (hself : Beside t c' c') :
    Admissions limits ⟨t, calls⟩ := by
  have hstands : ∀ d ∈ calls, Stands t d :=
    fun d hd => (hmem d hd).elim (hold d) fun heq => heq ▸ hnew
  have hbeside : ∀ c ∈ calls, ∀ d ∈ calls, Beside t c d := by
    intro c hc d hd
    rcases hmem c hc with hc | rfl <;> rcases hmem d hd with hd | rfl
    · exact hpairs c hc d hd
    · exact hright c hc
    · exact hleft d hd
    · exact hself
  exact ⟨hgate, fun d hd => (hstands d hd).dropped, fun d hd => (hstands d hd).commits,
    fun d hd => (hstands d hd).epochs, fun c hc he d hd => (hbeside c hc d hd).quiet he,
    fun c hc he v hv d hd => (hbeside c hc d hd).fresh he v hv,
    fun a ha d hd => (hstands d hd).revoked a ha, hwithin⟩

theorem mem_or_eq_set : ∀ d ∈ s.calls.set i c', d ∈ s.calls ∨ d = c' :=
  fun _ hd => mem_or_eq_of_mem_set hd

/-- A call moves on to stand for less, while guards are cancelled or the
authority closes. -/
theorem Admissions.move (h : Admissions limits s) (hc : s.calls[i]? = some c)
    (hcloses : s.registry.Closes t) (hgate : Gate t.mutations (s.calls.set i c'))
    (hweaker : c.Weaker c') (hdropped : c'.gateDropped → t.closed) :
    Admissions limits ⟨t, s.calls.set i c'⟩ := by
  have hmem : c ∈ s.calls := mem_of_getElem? hc
  have hstands : ∀ d ∈ s.calls, Stands t d := by
    intro d hd
    have hd := h.stands hd
    exact ⟨fun hd' => hcloses.closed (hd.dropped hd'), hcloses.version ▸ hd.commits,
      hcloses.epoch ▸ hd.epochs, revoked_of_closes hcloses hd.revoked⟩
  have hbeside : ∀ d ∈ s.calls, ∀ d' ∈ s.calls, Beside t d d' := by
    intro d hd d' hd'
    have hd := h.beside hd hd'
    exact ⟨fun he => hd.quiet (hcloses.epoch ▸ he), fun he => hd.fresh (hcloses.epoch ▸ he)⟩
  have hleft : ∀ {d}, Beside t c d → Beside t c' d := fun hd =>
    ⟨fun he => hd.quiet (hweaker.epochs _ he),
      fun he v hv => hd.fresh (hweaker.epochs _ he) v (hweaker.reads v hv)⟩
  have hright : ∀ {d}, Beside t d c → Beside t d c' := fun hd =>
    ⟨fun he => Bool.eq_false_iff.mpr fun hdenying => Bool.eq_false_iff.mp (hd.quiet he)
      (hweaker.denying hdenying), fun he v hv w hw => hd.fresh he v hv w (hweaker.commits w hw)⟩
  have hnew := hstands c hmem
  exact .of_calls mem_or_eq_set hgate (within_of_closes hcloses h.within) hstands
    ⟨hdropped, fun v hv => hnew.commits v (hweaker.commits v hv),
    fun e he => hnew.epochs e (hweaker.epochs e he),
      fun a ha hrevokes => hnew.revoked a ha (hweaker.revokes a hrevokes)⟩ hbeside
    (fun d hd => hleft (hbeside c hmem d hd)) (fun d hd => hright (hbeside d hd c hmem))
    (hright (hleft (hbeside c hmem c hmem)))

/-- A call that stands for nothing. -/
structure Call.Blank (c : Call) : Prop where
  denying : c.denying = false := by rfl
  commits : c.commitOf = none := by rfl
  epochs : c.epochOf = none := by rfl
  reads : c.readOf = none := by rfl
  revokes : ∀ a, c.revokes a = false := by exact fun _ => rfl
  dropped : c.gateDropped = false := by rfl

theorem Call.Blank.weaker (h : c'.Blank) : c.Weaker c' := by
  constructor
  · simp [h.denying]
  · simp [h.commits]
  · simp [h.epochs]
  · simp [h.reads]
  · simp [h.revokes]

/-- A call moves on to stand for nothing. -/
theorem Admissions.blank (h : Admissions limits s) (hc : s.calls[i]? = some c)
    (hcloses : s.registry.Closes t) (hgate : Gate t.mutations (s.calls.set i c'))
    (hblank : c'.Blank) : Admissions limits ⟨t, s.calls.set i c'⟩ :=
  h.move hc hcloses hgate hblank.weaker (by simp [hblank.dropped])

section

variable (h : Admissions limits s)
include h

/-- A call comes in, a mutation with the gate. -/
theorem Admissions.enter (hblank : c.Blank) {mutations : ℕ}
    (hgate : Gate mutations (s.calls ++ [c])) :
    Admissions limits ⟨{ s.registry with mutations := mutations }, s.calls ++ [c]⟩ := by
  have hleft : ∀ d, Beside { s.registry with mutations := mutations } c d := fun d =>
    ⟨fun he => by simp [hblank.epochs] at he, fun he => by simp [hblank.epochs] at he⟩
  refine .of_calls (fun d hd => by simpa using hd : ∀ d ∈ s.calls ++ [c], d ∈ s.calls ∨ d = c) hgate
    h.within (fun d hd => { h.stands hd with }) ⟨?_, ?_, ?_, ?_⟩
    (fun d hd d' hd' => { h.beside hd hd' with }) (fun d _ => hleft d)
    (fun d _ => ⟨fun _ => hblank.denying, fun _ _ _ => ?_⟩) (hleft c)
  · simp [hblank.dropped]
  · simp [hblank.commits]
  · simp [hblank.epochs]
  · simp [hblank.revokes]
  · simp [hblank.commits]

variable {r : AuthorizationRequest}

/-- The admission reads the epoch with the gate free. -/
theorem Admissions.observe (hc : s.calls[i]? = some (.admission r .entered))
    (hfree : s.registry.mutations = 0) :
    Admissions limits ⟨s.registry, s.calls.set i (.admission r (.observed s.registry.epoch))⟩ := by
  have hquiet : ∀ d ∈ s.calls, d.denying = false := by
    intro d hd
    rw [Bool.eq_false_iff]
    intro hdenying
    have hgated := gated_of_denying hdenying
    rw [Gate.free (hfree ▸ h.gate) d hd] at hgated
    cases hgated
  refine .of_calls mem_or_eq_set (h.gate.keep hc rfl) h.within (fun d => h.stands)
    ⟨nofun, nofun, ?_, nofun⟩
    (fun d hd d' => h.beside hd) (fun d hd => ⟨fun _ => hquiet d hd, nofun⟩)
    (fun d _ => ⟨fun _ => rfl, nofun⟩) ⟨fun _ => rfl, nofun⟩
  rintro _ ⟨⟩
  exact Nat.le_refl _

/-- The permission check reads the database of this moment. -/
theorem Admissions.check {epoch : ℕ}
    (hc : s.calls[i]? = some (.admission r (.observed epoch))) :
    Admissions limits
    ⟨s.registry, s.calls.set i (.admission r (.checked epoch s.registry.version))⟩ := by
  have hmem : Call.admission r (.observed epoch) ∈ s.calls := mem_of_getElem? hc
  refine .of_calls mem_or_eq_set (h.gate.keep hc rfl) h.within (fun d => h.stands)
    ⟨nofun, nofun, (h.stands hmem).epochs, nofun⟩
    (fun d hd d' => h.beside hd) (fun d hd => ⟨(h.beside hmem hd).quiet, ?_⟩)
    (fun d _ => ⟨fun _ => rfl, nofun⟩) ⟨fun _ => rfl, nofun⟩
  rintro - _ ⟨⟩
  exact h.commits d hd

/-- The admission is over. -/
theorem Admissions.admission_end {phase : AdmitPhase}
    (hc : s.calls[i]? = some (.admission r phase)) (guard : Option ℕ) :
    Admissions limits ⟨s.registry, s.calls.set i (.admission r (.returned guard))⟩ :=
  h.blank hc (.refl _) (h.gate.keep hc rfl) {}

end

/-- A guard is registered with the gate free and the epoch as observed: its
check read every commit so far. -/
theorem Admissions.register (h : Admissions limits s) {r : AuthorizationRequest} {readAt : ℕ}
    (hc : s.calls[i]? = some (.admission r (.checked s.registry.epoch readAt)))
      (hfree : s.registry.mutations = 0)
    (hroom : s.registry.room limits r) (guard : Option ℕ) :
    Admissions limits ⟨{ s.registry with
      next := s.registry.next + 1, active := s.registry.active ++ [s.registry.guardOf r readAt] },
      s.calls.set i (.admission r (.returned guard))⟩ := by
  have hmem : Call.admission r (.checked s.registry.epoch readAt) ∈ s.calls := mem_of_getElem? hc
  have hmoved := h.admission_end hc guard
  refine ⟨hmoved.gate, hmoved.dropped, hmoved.commits, hmoved.epochs, hmoved.quiet, hmoved.fresh,
    fun a ha d hd hrevokes => ?_, h.within.register hroom readAt⟩
  rcases mem_append.mp ha with ha | ha
  · exact hmoved.revoked a ha d hd hrevokes
  · exfalso
    rw [mem_singleton.mp ha] at hrevokes
    rcases mem_or_eq_of_mem_set hd with hd | rfl
    · have hnone := Gate.free (hfree ▸ h.gate) d hd
      have hfresh := h.fresh _ hmem rfl readAt rfl d hd
      unfold Call.revokes at hrevokes
      split at hrevokes
      · cases hnone
      · cases hnone
      · cases hnone
      · rw [Bool.and_eq_true, decide_eq_true_eq] at hrevokes
        exact absurd hrevokes.2 (Nat.not_lt.mpr (hfresh _ rfl))
      · cases hrevokes
    · cases hrevokes

variable {m : Mutation}

/-- The mutation raises the epoch and cancels what it affects. No admission is
at the new epoch. -/
theorem Admissions.deny (h : Admissions limits s) (hc : s.calls[i]? = some (.mutate m .begun)) :
    Admissions limits ⟨{ s.registry with epoch := s.registry.epoch + 1 }.cancelWhere m.affects,
      s.calls.set i (.mutate m .denied)⟩ := by
  have hcloses : s.registry.Closes (s.registry.cancelWhere m.affects) := .cancelWhere _ _
  have hbeside : ∀ c ∈ s.calls, ∀ d,
    Beside ({ s.registry with epoch := s.registry.epoch + 1 }.cancelWhere m.affects) c d := by
    intro c hc d
    have hnot : s.registry.epoch + 1 ∉ c.epochOf :=
      fun he => absurd (h.epochs c hc _ he) (Nat.not_succ_le_self _)
    exact ⟨fun he => absurd he hnot, fun he => absurd he hnot⟩
  have hwithin : Within limits (s.registry.cancelWhere m.affects).active :=
    within_of_closes hcloses h.within
  refine .of_calls mem_or_eq_set (h.gate.keep hc rfl) hwithin (fun d hd => ?_)
    ⟨nofun, nofun, nofun, fun a ha hrevokes => ?_⟩ (fun c hc d _ => hbeside c hc d)
    (fun d _ => ⟨nofun, nofun⟩) (fun d hd => hbeside d hd _) ⟨nofun, nofun⟩
  · have hd := h.stands hd
    exact ⟨hd.dropped, hd.commits, fun e he => Nat.le_succ_of_le (hd.epochs e he),
      revoked_of_closes hcloses hd.revoked⟩
  · obtain ⟨b, -, rfl⟩ := mem_map.mp ha
    rw [show m.affects b = true from hrevokes, Bool.or_true]

/-- The commit. It has no admission of its epoch beside it. -/
theorem Admissions.commit (h : Admissions limits s)
    (hc : s.calls[i]? = some (.mutate m .verified)) :
    Admissions limits ⟨{ s.registry with version := s.registry.version + 1 },
      s.calls.set i (.mutate m (.committed (s.registry.version + 1)))⟩ := by
  have hmem : Call.mutate m .verified ∈ s.calls := mem_of_getElem? hc
  have hbeside : ∀ c ∈ s.calls, ∀ d,
    Beside { s.registry with version := s.registry.version + 1 } c d := by
    intro c hc d
    have hnot : s.registry.epoch ∉ c.epochOf := fun he => absurd (h.quiet c hc he _ hmem) nofun
    exact ⟨fun he => absurd he hnot, fun he => absurd he hnot⟩
  refine .of_calls mem_or_eq_set (h.gate.keep hc rfl) h.within (fun d hd => ?_)
    ⟨nofun, ?_, nofun, fun a ha hrevokes => ?_⟩
    (fun c hc d _ => hbeside c hc d) (fun d _ => ⟨nofun, nofun⟩) (fun d hd => hbeside d hd _)
    ⟨nofun, nofun⟩
  · exact { h.stands hd with commits := fun v hv => Nat.le_succ_of_le (h.commits d hd v hv) }
  · rintro _ ⟨⟩
    exact Nat.le_refl _
  · refine h.revoked a ha _ hmem ?_
    have hboth : (m.affects a && decide (a.readAt < s.registry.version + 1)) = true := hrevokes
    exact (Bool.and_eq_true_iff.mp hboth).1

theorem Admissions.drop_guard (h : Admissions limits s) (id : ℕ) :
    Admissions limits
    { s with
      registry := { s.registry with active := s.registry.active.filter fun a => a.id ≠ id } } :=
  ⟨h.gate, h.dropped, h.commits, h.epochs, h.quiet, h.fresh,
    fun a ha => h.revoked a (mem_filter.mp ha).1, h.within.filter _⟩

variable {ok : Bool}

/-- The request is refused, or the guard registered with the gate free, the
epoch as observed and room for it. -/
theorem Registry.register_cases (limits : AuthorityLimits) (s : Registry) (r : AuthorizationRequest)
    (epoch readAt : ℕ) : s.register limits r epoch readAt = (s, .returned none) ∨
    s.mutations = 0 ∧ s.epoch = epoch ∧ s.room limits r ∧ s.register limits r epoch readAt =
      ({ s with next := s.next + 1, active := s.active ++ [s.guardOf r readAt] },
      .returned (some s.next)) := by
  fun_cases s.register limits r epoch readAt with
  | case3 hgate hroom =>
    rw [not_or, not_not, not_not] at hgate
    exact .inr ⟨hgate.1, hgate.2, Bool.not_eq_false _ ▸ hroom, rfl⟩
  | _ => exact .inl rfl

theorem Admissions.next_admission (h : Admissions limits s) {r : AuthorizationRequest}
    {phase phase' : AdmitPhase} (hc : s.calls[i]? = some (.admission r phase))
    (hnext : s.registry.advanceAdmit limits r ok phase = some (t, phase')) :
    Admissions limits ⟨t, s.calls.set i (.admission r phase')⟩ := by
  cases phase with
  | entered =>
    cases hnext
    split
    · rename_i hok
      rw [Bool.and_eq_true, decide_eq_true_eq] at hok
      exact h.observe hc hok.2
    · exact h.admission_end hc none
  | observed epoch =>
    cases hnext
    split
    · exact h.check hc
    · exact h.admission_end hc none
  | checked epoch readAt =>
    cases ok with
    | false => cases hnext; exact h.admission_end hc none
    | true =>
      have hregister : s.registry.register limits r epoch readAt = (t, phase') :=
        Option.some.inj hnext
      rcases s.registry.register_cases limits r epoch readAt with heq | ⟨hfree, rfl, hroom, heq⟩
      · cases heq.symm.trans hregister
        exact h.admission_end hc none
      · cases heq.symm.trans hregister
        exact h.register hc hfree hroom _
  | returned guard => cases hnext

theorem Admissions.next_mutation (h : Admissions limits s) {phase phase' : MutationPhase}
    (hc : s.calls[i]? = some (.mutate m phase))
    (hnext : s.registry.advanceMutation m ok phase = some (t, phase')) :
    Admissions limits ⟨t, s.calls.set i (.mutate m phase')⟩ := by
  have hdrop : (Call.mutate m phase).gated →
    Admissions limits ⟨s.registry, s.calls.set i (.mutate m .dropped)⟩ :=
    fun hgated => h.blank hc (.refl _) (h.gate.keep hc hgated.symm) {}
  cases phase with
  | begun =>
    simp only [Registry.advanceMutation] at hnext
    split at hnext
    · cases hnext
      exact h.deny hc
    · cases hnext
      exact hdrop rfl
  | denied =>
    cases hnext
    split
    · exact h.move hc (.refl _) (h.gate.keep hc rfl)
        ⟨fun _ => rfl, nofun, nofun, nofun, fun _ ha => ha⟩ nofun
    · exact hdrop rfl
  | verified =>
    simp only [Registry.advanceMutation] at hnext
    split at hnext
    · cases hnext
      exact h.commit hc
    · cases hnext
      exact hdrop rfl
  | committed version =>
    simp only [Registry.advanceMutation] at hnext
    split at hnext
    · cases hnext
      exact h.move hc .of_active (h.gate.leave hc rfl rfl)
        ⟨nofun, fun _ hv => hv, nofun, nofun, fun _ ha => ha⟩ nofun
    · cases hnext
      exact hdrop rfl
  | dropped =>
    cases hnext
    exact h.blank hc .of_active (h.gate.keep hc rfl) {}
  | failedSet =>
    cases hnext
    exact h.move hc .of_active (h.gate.keep hc rfl) ⟨nofun, nofun, nofun, nofun, nofun⟩ fun _ => rfl
  | closedSet =>
    cases hnext
    have hclosed : s.registry.closed := h.dropped _ (mem_of_getElem? hc) rfl
    exact h.move hc ⟨rfl, rfl, id, fun _ => true, rfl⟩ (h.gate.leave hc rfl rfl)
      ⟨nofun, nofun, nofun, nofun, nofun⟩ fun _ => hclosed
  | completed version => cases hnext
  | aborted => cases hnext

/-- The calls that only close, validate or release. -/
def Call.closes : Call → Bool
  | .admission .. | .mutate .. => false
  | _ => true

theorem Call.closes_blank (h : c.closes) : c.Blank ∧ c.gated = false := by
  cases c with
  | admission | mutate => cases h
  | _ => exact ⟨{}, rfl⟩

theorem closes_advance {refused : Option Bool} (hc : c.closes)
    (h : r.advance limits ok refused c = some (t, c')) :
    c'.closes ∧ r.Closes t ∧ t.mutations = r.mutations ∧ t.next = r.next := by
  cases c with
  | admission | mutate => cases hc
  | close dirty phase =>
    obtain ⟨⟨t, phase'⟩, hphase, ⟨⟩⟩ := Option.map_eq_some_iff.mp h
    revert hphase
    fun_cases Registry.advanceClose r dirty phase <;> rintro ⟨⟩
    · exact ⟨rfl, .of_active, rfl, rfl⟩
    · exact ⟨rfl, .of_active, rfl, rfl⟩
    · exact ⟨rfl, .cancelWhere _ _, rfl, rfl⟩
  | validate id phase =>
    obtain ⟨⟨t, phase'⟩, hphase, ⟨⟩⟩ := Option.map_eq_some_iff.mp h
    unfold Registry.advanceValidate at hphase
    repeat' split at hphase
    all_goals cases hphase
    all_goals first | exact ⟨rfl, .of_active, rfl, rfl⟩ | exact ⟨rfl, .cancelWhere _ _, rfl, rfl⟩
  | release phase =>
    obtain ⟨⟨t, phase'⟩, hphase, ⟨⟩⟩ := Option.map_eq_some_iff.mp h
    revert hphase
    fun_cases Registry.advanceRelease r ok phase with
    | case2 => rintro ⟨⟩; exact ⟨rfl, .cancelWhere _ _, rfl, rfl⟩
    | _ => rintro ⟨⟩ <;> exact ⟨rfl, .of_active, rfl, rfl⟩

theorem Admissions.step {t : Authority} (h : Admissions limits s) {e : Event}
    (hstep : s.Step limits e t) : Admissions limits t := by
  have hblank : ∀ {c : Call}, c.gated = false → c.Blank → Admissions limits (s.enter c) :=
    fun hgated hblank =>
    h.enter hblank (h.gate.enter hgated)
  revert hstep
  unfold Authority.Step
  fun_cases Authority.step limits s e with
  | case2 | case5 | case6 | case9 => rintro ⟨⟩; exact hblank rfl {}
  | case3 m hopen =>
    rintro ⟨⟩
    have hfree : Gate 0 s.calls := hopen.2.1 ▸ h.gate
    refine h.enter {} ?_
    rw [hopen.2.1]
    exact hfree.begin _
  | case10 id => rintro ⟨⟩; exact h.drop_guard id
  | case11 i ok refused c hc =>
    intro hstep
    obtain ⟨⟨r, c'⟩, hnext, rfl⟩ := Option.map_eq_some_iff.mp hstep
    cases c with
    | admission request phase =>
      obtain ⟨⟨r, phase'⟩, hphase, ⟨⟩⟩ := Option.map_eq_some_iff.mp hnext
      exact h.next_admission hc hphase
    | mutate m phase =>
      obtain ⟨⟨r, phase'⟩, hphase, ⟨⟩⟩ := Option.map_eq_some_iff.mp hnext
      exact h.next_mutation hc hphase
    | _ =>
      -- closing, validating and releasing calls stand for nothing
      obtain ⟨hcloses', hcloses, hmutations, -⟩ := closes_advance rfl hnext
      obtain ⟨hblank', hgated⟩ := Call.closes_blank hcloses'
      exact h.blank hc hcloses (hmutations ▸ h.gate.keep hc hgated) hblank'
  | _ => rintro ⟨⟩

theorem admissions_of_run {tr : List Event} (h : Run (Authority.Step limits) .initial tr s) :
    Admissions limits s :=
  h.invariant (Admissions.initial limits) fun hs hstep => hs.step hstep

/-- **No stale admission survives a revocation.** Whatever calls interleave,
fail or are dropped: once a mutation has returned, every registered guard it
affects whose permission check read a database before its commit is cancelled,
then and later; a mutation that began and ended without completing leaves the
authority closed; at most one mutation is between its begin and its completion;
and the guards are within the limits. -/
theorem no_stale_admission {tr : List Event} (h : Run (Authority.Step limits) .initial tr s) :
    (∀ m version, Call.mutate m (.completed version) ∈ s.calls → ∀ a ∈ s.registry.active,
      m.affects a → a.readAt < version → a.cancelled) ∧
    (∀ m, Call.mutate m .aborted ∈ s.calls → s.registry.closed) ∧
    (∀ (i j : ℕ) (c d : Call), s.calls[i]? = some c → s.calls[j]? = some d → c.gated →
      d.gated → i = j) ∧ s.registry.active.length ≤ limits.global ∧
    (∀ teamId, (s.registry.active.filter fun a => a.teamId = teamId).length ≤ limits.perTeam) ∧
    ∀ principalId, (s.registry.active.filter fun a => a.principalId = principalId).length ≤
    limits.perPrincipal := by
  have hinv := admissions_of_run h
  refine ⟨fun m version hm a ha haffects hread => ?_, fun m hm => hinv.dropped _ hm rfl,
    fun i j c d hc hd hgated hgated' => ((hinv.gate.held hc hgated).2 hd hgated').symm,
    hinv.within.global, hinv.within.team, hinv.within.principal⟩
  refine hinv.revoked a ha _ hm ?_
  show (m.affects a && decide (a.readAt < version)) = true
  rw [haffects, decide_eq_true hread, Bool.and_true]

end Steps

/-! Two admissions of a principal, one registered before its revocation and one
whose check is older than the commit. -/

def sampleLimits : AuthorityLimits := ⟨2, 2, 2⟩

def sampleRequest : AuthorizationRequest := ⟨10, 20, 30⟩

def sampleRevocation : Mutation := .revoke ⟨.principal, 20, none⟩

def revocationRun : List Event :=
  [.admission sampleRequest, .next 0 true none, .next 0 true none, .next 0 true none,
    .admission sampleRequest, .next 1 true none, .next 1 true none,
    .mutate sampleRevocation, .next 2 true none, .next 2 true none, .next 2 true none,
    .next 2 true none, .next 1 true none]

/-- The first guard is cancelled and the second admission refused. -/
theorem no_stale_admission_sample :
    ∃ s, Run (Authority.Step sampleLimits) .initial revocationRun s ∧
    s.registry.active = [⟨1, 10, 20, 30, true, 0⟩] ∧
    s.calls = [.admission sampleRequest (.returned (some 1)),
      .admission sampleRequest (.returned none), .mutate sampleRevocation (.completed 1)] ∧
    ∀ m version, Call.mutate m (.completed version) ∈ s.calls → ∀ a ∈ s.registry.active,
      m.affects a → a.readAt < version → a.cancelled := by
  have hrun : Run (Authority.Step sampleLimits) .initial revocationRun _ :=
    Runs.steps_get _ _ _ (by decide +kernel)
  exact ⟨_, hrun, by decide +kernel, by decide +kernel, (no_stale_admission hrun).1⟩

end Pohunek.Relay
