/-
# Closing the authority

Five paths close the authority of `Relay.Admission`: `close_all`, `begin_stop`,
the dropped gate of a mutation, a guard's `validate` and `release_clean`. Each
stores `closed`; all but `validate` then cancel every guard under the lock.

Not covered by them is an admission that passed its check of `closed` before:
it registers under the lock without looking again, so it returns a live guard
from a closed authority, also after a clean release. And a `validate` that
closes the authority cancels its own guard only (`open_after_close`).

Where an admission registers only while the authority is open, and a `validate`
closes it only once the other guards are cancelled, a closed authority stays
closed. What carries it is that no guard is added from the first store of
`closed` on, so what a sweep cancelled is all there is (`Sealed`).
-/
import Pohunek.Relay.Admission

namespace Pohunek.Relay

open List Bool

open Runs (Run)
open Registry
open Authority

namespace Call

/-- The call has stored `closed`. -/
def stored : Call → Bool
  | .mutate _ .closedSet | .mutate _ .aborted => true
  | .close _ .closedSet | .close _ .returned => true
  | .validate _ .leaseClosed | .validate _ (.returned true) => true
  | .release .closedSet | .release .swept | .release .empty | .release (.returned _) => true
  | _ => false

/-- The closing call has returned, for `release_clean` its `begin_stop`. -/
def swept : Call → Bool
  | .mutate _ .aborted | .close _ .returned | .validate _ (.returned true) => true
  | .release .swept | .release .empty | .release (.returned _) => true
  | _ => false

/-- The release found no guard. -/
def foundEmpty : Call → Bool
  | .release .empty | .release (.returned true) => true
  | _ => false

/-- The guard a `validate` is of. -/
def guardOf : Call → Option ℕ
  | .validate id _ => some id
  | _ => none

/-- The guard whose permission a `validate` found refused. -/
def refusedGuard : Call → Option ℕ
  | .validate id (.denied _) | .validate id .deniedFailed => some id
  | _ => none

/-- The guard whose `validate` closed the authority and is yet to cancel it. -/
def closingGuard : Call → Option ℕ
  | .validate id .leaseClosed => some id
  | _ => none

/-- The guard the admission has returned. -/
def admitted : Call → Option ℕ
  | .admission _ (.returned guard) => guard
  | _ => none

end Call

namespace Authority

/-- An admission registers while the authority is open, and a `validate`
closes it once the other guards are cancelled. -/
def fenced (limits : AuthorityLimits) (s : Authority) : Event → Bool
  | .next i ok _ =>
    match s.calls[i]? with
    | some (.admission r (.checked epoch readAt)) =>
      -- a move that registers nothing is free
      !(s.registry.closed && ok && (s.registry.register limits r epoch readAt).2 ≠ .returned none)
    | some (.validate id .leaseFailed) | some (.validate id .deniedFailed) =>
      s.registry.active.all fun a => a.id = id || a.cancelled
    | _ => true
  | _ => true

def FencedStep (limits : AuthorityLimits) (s : Authority) (e : Event) (t : Authority) : Prop :=
  s.Step limits e t ∧ s.fenced limits e

end Authority

/-! ### Guards only go -/

namespace Registry

/-- No guard is added: each is one from before, cancelled if that was. -/
structure Fewer (s t : Registry) : Prop where
  next : t.next = s.next
  closed : s.closed → t.closed
  active : ∀ a ∈ t.active, ∃ b ∈ s.active, b.id = a.id ∧ (b.cancelled → a.cancelled)

variable {s t u : Registry}

theorem Fewer.of_active (hnext : t.next = s.next := by rfl)
    (hclosed : s.closed → t.closed := by first | exact fun h => h | exact fun _ => rfl)
    (hactive : t.active = s.active := by rfl) : s.Fewer t :=
  ⟨hnext, hclosed, fun a ha => ⟨a, hactive ▸ ha, rfl, id⟩⟩

theorem Fewer.refl (s : Registry) : s.Fewer s := .of_active

theorem Fewer.trans (h : s.Fewer t) (h' : t.Fewer u) : s.Fewer u := by
  refine ⟨h'.next.trans h.next, fun hclosed => h'.closed (h.closed hclosed), fun a ha => ?_⟩
  obtain ⟨b, hb, hid, hcancelled⟩ := h'.active a ha
  obtain ⟨d, hd, hid', hcancelled'⟩ := h.active b hb
  exact ⟨d, hd, hid'.trans hid, fun hc => hcancelled (hcancelled' hc)⟩

theorem Closes.fewer (h : s.Closes t) (hnext : t.next = s.next) : s.Fewer t := by
  refine ⟨hnext, h.closed, fun a ha => ?_⟩
  obtain ⟨p, hp⟩ := h.active
  rw [hp] at ha
  obtain ⟨b, hb, rfl⟩ := mem_map.mp ha
  exact ⟨b, hb, rfl, fun hcancelled => by simp [hcancelled]⟩

theorem Fewer.cancelWhere (s : Registry) (p : Active → Bool) : s.Fewer (s.cancelWhere p) :=
  (Closes.cancelWhere s p).fewer rfl

theorem Fewer.empty (h : s.Fewer t) (hempty : s.active = []) : t.active = [] := by
  refine eq_nil_iff_forall_not_mem.mpr fun a ha => ?_
  obtain ⟨b, hb, -⟩ := h.active a ha
  rw [hempty] at hb
  cases hb

theorem Fewer.cancelled (h : s.Fewer t) (hall : ∀ a ∈ s.active, a.cancelled) :
    ∀ a ∈ t.active, a.cancelled := by
  intro a ha
  obtain ⟨b, hb, -, hcancelled⟩ := h.active a ha
  exact hcancelled (hall b hb)

theorem cancelWhere_cancelled {p : Active → Bool} {a : Active} (ha : a ∈ (s.cancelWhere p).active)
    (hp : ∀ b ∈ s.active, b.id = a.id → p b ∨ b.cancelled) : a.cancelled := by
  obtain ⟨b, hb, rfl⟩ := mem_map.mp ha
  rcases hp b hb rfl with hb' | hb'
  · rw [hb', Bool.or_true]
  · rw [hb', Bool.true_or]

theorem cancelAll_cancelled : ∀ a ∈ s.cancelAll.active, a.cancelled :=
  fun _ ha => cancelWhere_cancelled ha fun _ _ _ => .inl rfl

/-- The admission registers its guard. -/
def Registers (s : Registry) (c : Call) (t : Registry) (c' : Call) : Prop :=
  ∃ r epoch readAt, c = .admission r (.checked epoch readAt) ∧
    c' = .admission r (.returned (some s.next)) ∧
    t = { s with next := s.next + 1, active := s.active ++ [s.guardOf r readAt] }

variable {limits : AuthorityLimits} {ok : Bool}

theorem fewer_advanceAdmit {r : AuthorizationRequest} {phase phase' : AdmitPhase}
    (h : s.advanceAdmit limits r ok phase = some (t, phase')) :
    s.Registers (.admission r phase) t (.admission r phase') ∨ t = s ∧
    (Call.admission r phase').admitted = none := by
  cases phase with
  | entered | observed epoch => cases h; exact .inr ⟨rfl, by split <;> rfl⟩
  | checked epoch readAt =>
    cases ok with
    | false => cases h; exact .inr ⟨rfl, rfl⟩
    | true =>
      have hregister : s.register limits r epoch readAt = (t, phase') := Option.some.inj h
      rcases s.register_cases limits r epoch readAt with heq | ⟨-, -, -, heq⟩
      · cases heq.symm.trans hregister
        exact .inr ⟨rfl, rfl⟩
      · cases heq.symm.trans hregister
        exact .inl ⟨r, epoch, readAt, rfl, rfl, rfl⟩
  | returned guard => cases h

theorem fewer_advanceMutation {m : Mutation} {phase phase' : MutationPhase}
    (h : s.advanceMutation m ok phase = some (t, phase')) : s.Fewer t := by
  cases phase with
  | begun =>
    simp only [advanceMutation] at h
    split at h
    · cases h
      have hraised : s.Fewer { s with epoch := s.epoch + 1 } := .of_active
      exact hraised.trans (.cancelWhere _ _)
    · cases h; exact .refl _
  | verified | committed version =>
    simp only [advanceMutation] at h
    split at h <;> cases h <;> exact .of_active
  | closedSet =>
    cases h
    have hfreed : s.Fewer { s with mutations := s.mutations - 1 } := .of_active
    exact hfreed.trans (.cancelWhere _ _)
  | _ => cases h <;> exact .of_active

/-- A call that moves on registers a guard, or adds none and is not an
admission returning one. -/
theorem fewer_advance {refused : Option Bool} {c c' : Call}
    (h : s.advance limits ok refused c = some (t, c')) :
    s.Registers c t c' ∨ s.Fewer t ∧ c'.admitted = none := by
  cases c with
  | admission r phase =>
    obtain ⟨⟨t, phase'⟩, hphase, ⟨⟩⟩ := Option.map_eq_some_iff.mp h
    exact (fewer_advanceAdmit hphase).imp_right fun ⟨hsame, hnone⟩ => ⟨hsame ▸ .refl _, hnone⟩
  | mutate m phase =>
    obtain ⟨⟨t, phase'⟩, hphase, ⟨⟩⟩ := Option.map_eq_some_iff.mp h
    exact .inr ⟨fewer_advanceMutation hphase, rfl⟩
  | _ =>
    obtain ⟨hcloses', hcloses, -, hnext⟩ := closes_advance rfl h
    refine .inr ⟨hcloses.fewer hnext, ?_⟩
    cases c' with
    | admission => cases hcloses'
    | _ => rfl

end Registry

/-! ### What a call in the middle of closing stands for -/

/-- What the call says of the registry. -/
structure Brings (t : Registry) (c : Call) : Prop where
  stored : c.stored → t.closed
  swept : c.swept → ∀ a ∈ t.active, a.cancelled
  closing : ∀ id ∈ c.closingGuard, ∀ a ∈ t.active, a.id = id ∨ a.cancelled
  refused : ∀ id ∈ c.refusedGuard, ∀ a ∈ t.active, a.id = id → a.cancelled
  empty : c.foundEmpty → t.active = []
  guard : ∀ id ∈ c.guardOf, id < t.next

structure Sealed (s : Authority) : Prop where
  brings : ∀ c ∈ s.calls, Brings s.registry c
  -- a new guard has a new id
  ids : ∀ a ∈ s.registry.active, a.id < s.registry.next

section Steps

variable {limits : AuthorityLimits} {s : Authority} {t : Registry} {i : ℕ} {c c' : Call} {ok : Bool}

theorem stored_of_swept (h : c.swept) : c.stored := by
  revert h
  fun_cases Call.swept c <;> first | exact fun _ => rfl | nofun

theorem stored_of_foundEmpty (h : c.foundEmpty) : c.stored := by
  revert h
  fun_cases Call.foundEmpty c <;> first | exact fun _ => rfl | nofun

variable {id : ℕ}

theorem stored_of_closingGuard (h : id ∈ c.closingGuard) : c.stored := by
  unfold Call.closingGuard at h
  split at h
  · rfl
  · cases h

theorem guardOf_of_closingGuard (h : id ∈ c.closingGuard) : id ∈ c.guardOf := by
  unfold Call.closingGuard at h
  split at h
  · exact h
  · cases h

theorem guardOf_of_refusedGuard (h : id ∈ c.refusedGuard) : id ∈ c.guardOf := by
  unfold Call.refusedGuard at h
  split at h
  · exact h
  · exact h
  · cases h

/-- A call that has not closed the authority. -/
theorem Brings.of_open (hstored : c.stored = false)
    (hrefused : ∀ id ∈ c.refusedGuard, ∀ a ∈ t.active, a.id = id → a.cancelled)
    (hguard : ∀ id ∈ c.guardOf, id < t.next) : Brings t c := by
  have hno : c.stored ≠ true := eq_false_iff.mp hstored
  exact ⟨fun h => absurd h hno, fun h => absurd (stored_of_swept h) hno,
    fun _ h => absurd (stored_of_closingGuard h) hno, hrefused,
    fun h => absurd (stored_of_foundEmpty h) hno, hguard⟩

theorem Brings.of_blank (hstored : c.stored = false) (hguard : c.guardOf = none) : Brings t c := by
  have hnone : ∀ id, id ∉ c.guardOf := fun id => hguard ▸ Option.not_mem_none id
  exact .of_open hstored (fun id hid => absurd (guardOf_of_refusedGuard hid) (hnone id))
    fun id hid => absurd hid (hnone id)

/-- A closing call other than a `validate`. -/
theorem Brings.of_closing (hguard : c.guardOf = none) (hclosed : t.closed)
    (hswept : c.swept → ∀ a ∈ t.active, a.cancelled) (hempty : c.foundEmpty → t.active = []) :
    Brings t c := by
  have hnone : ∀ id, id ∉ c.guardOf := fun id => hguard ▸ Option.not_mem_none id
  exact ⟨fun _ => hclosed, hswept, fun id hid => absurd (guardOf_of_closingGuard hid) (hnone id),
    fun id hid => absurd (guardOf_of_refusedGuard hid) (hnone id), hempty,
    fun id hid => absurd hid (hnone id)⟩

/-- It has stored `closed` and is yet to sweep. -/
theorem Brings.of_stored (hguard : c.guardOf = none) (hclosed : t.closed) (hswept : c.swept = false)
    (hempty : c.foundEmpty = false) : Brings t c :=
  .of_closing hguard hclosed (fun h => absurd h (eq_false_iff.mp hswept))
    fun h => absurd h (eq_false_iff.mp hempty)

theorem Brings.of_swept (hguard : c.guardOf = none) (hclosed : t.closed)
    (hall : ∀ a ∈ t.active, a.cancelled) (hempty : c.foundEmpty = false) : Brings t c :=
  .of_closing hguard hclosed (fun _ => hall) fun h => absurd h (eq_false_iff.mp hempty)

variable {r : Registry}

theorem Brings.fewer (h : Brings r c) (hfewer : r.Fewer t) : Brings t c where
  stored hstored := hfewer.closed (h.stored hstored)
  swept hswept := hfewer.cancelled (h.swept hswept)
  closing id hid a ha := by
    obtain ⟨b, hb, hsame, hcancelled⟩ := hfewer.active a ha
    exact (h.closing id hid b hb).imp (fun hb' => hsame.symm.trans hb') hcancelled
  refused id hid a ha hsame' := by
    obtain ⟨b, hb, hsame, hcancelled⟩ := hfewer.active a ha
    exact hcancelled (h.refused id hid b hb (hsame.trans hsame'))
  empty hempty := hfewer.empty (h.empty hempty)
  guard id hid := hfewer.next ▸ h.guard id hid

theorem Sealed.ids_of_fewer (h : Sealed s) (hfewer : s.registry.Fewer t) :
    ∀ a ∈ t.active, a.id < t.next := by
  intro a ha
  obtain ⟨b, hb, hsame, -⟩ := hfewer.active a ha
  rw [hfewer.next, ← hsame]
  exact h.ids b hb

theorem Sealed.move (h : Sealed s) (hfewer : s.registry.Fewer t) (hc' : Brings t c') :
    Sealed ⟨t, s.calls.set i c'⟩ := by
  refine ⟨fun d hd => ?_, h.ids_of_fewer hfewer⟩
  rcases mem_or_eq_of_mem_set hd with hd | rfl
  · exact (h.brings d hd).fewer hfewer
  · exact hc'

theorem Sealed.enter (h : Sealed s) (hfewer : s.registry.Fewer t) (hc : Brings t c) :
    Sealed ⟨t, s.calls ++ [c]⟩ := by
  exact ⟨List.forall_mem_snoc (fun d hd => (h.brings d hd).fewer hfewer) hc, h.ids_of_fewer hfewer⟩

/-- A guard is added while the authority is open: no call has closed it, and a
guard whose permission was refused is an older one. -/
theorem Sealed.register (h : Sealed s) (hopen : s.registry.closed = false)
    (hregisters : s.registry.Registers c t c') : Sealed ⟨t, s.calls.set i c'⟩ := by
  obtain ⟨r, epoch, readAt, -, rfl, rfl⟩ := hregisters
  have hnone : ∀ d ∈ s.calls, d.stored ≠ true := by
    intro d hd hstored
    rw [(h.brings d hd).stored hstored] at hopen
    cases hopen
  refine ⟨fun d hd => ?_, fun a ha => ?_⟩
  · rcases mem_or_eq_of_mem_set hd with hd | rfl
    · have hbrings := h.brings d hd
      refine ⟨fun hd' => absurd hd' (hnone d hd),
        fun hd' => absurd (stored_of_swept hd') (hnone d hd),
        fun id hid => absurd (stored_of_closingGuard hid) (hnone d hd), fun id hid a ha hsame => ?_,
        fun hd' => absurd (stored_of_foundEmpty hd') (hnone d hd),
        fun id hid => (hbrings.guard id hid).trans (Nat.lt_succ_self _)⟩
      rcases mem_append.mp ha with ha | ha
      · exact hbrings.refused id hid a ha hsame
      · have hlt := hbrings.guard id (guardOf_of_refusedGuard hid)
        rw [mem_singleton.mp ha] at hsame
        exact absurd hsame.symm (Nat.ne_of_lt hlt)
    · exact .of_blank rfl rfl
  · rcases mem_append.mp ha with ha | ha
    · exact (h.ids a ha).trans (Nat.lt_succ_self _)
    · rw [mem_singleton.mp ha]
      exact Nat.lt_succ_self _

theorem brings_mutation {m : Mutation} {phase phase' : MutationPhase}
    (h : Brings r (.mutate m phase)) (hnext : r.advanceMutation m ok phase = some (t, phase')) :
    Brings t (.mutate m phase') := by
  cases phase with
  | begun | verified | committed version =>
    simp only [advanceMutation] at hnext
    split at hnext <;> cases hnext <;> exact .of_blank rfl rfl
  | denied => cases hnext; split <;> exact .of_blank rfl rfl
  | dropped => cases hnext; exact .of_blank rfl rfl
  | failedSet => cases hnext; exact .of_stored rfl rfl rfl rfl
  | closedSet =>
    cases hnext
    exact .of_swept rfl (h.stored rfl) cancelAll_cancelled rfl
  | completed | aborted => cases hnext

theorem brings_close {dirty : Bool} {phase phase' : ClosePhase} (h : Brings r (.close dirty phase))
    (hnext : r.advanceClose dirty phase = some (t, phase')) : Brings t (.close dirty phase') := by
  cases phase with
  | entered => cases hnext; exact .of_blank rfl rfl
  | failedSet => cases hnext; exact .of_stored rfl rfl rfl rfl
  | closedSet =>
    cases hnext
    exact .of_swept rfl (h.stored rfl) cancelAll_cancelled rfl
  | returned => cases hnext

variable {refused : Option Bool}

/-- A `validate` brings its own guard cancelled, and what the fence says of the
others. -/
theorem brings_validate {phase phase' : ValidatePhase} (h : Brings r (.validate id phase))
    (hsame : t.next = r.next)
    (hothers : phase = .leaseFailed ∨ phase = .deniedFailed → ∀ a ∈ r.active, a.id = id ∨
      a.cancelled)
    (hnext : r.advanceValidate id ok refused phase = some (t, phase')) :
    Brings t (.validate id phase') := by
  have hguard : ∀ id' ∈ (Call.validate id phase').guardOf, id' < t.next := by
    intro id' hid'
    cases hid'
    rw [hsame]
    exact h.guard id rfl
  have hno : ∀ {P : ℕ → Prop}, ∀ id' ∈ (none : Option ℕ), P id' := by simp
  cases phase with
  | entered =>
    simp only [advanceValidate] at hnext
    split at hnext
    · cases hnext
      exact .of_open rfl hno hguard
    · split at hnext
      · cases hnext
        refine .of_open rfl (fun id' hid' a ha hsame => ?_) hguard
        cases hid'
        exact cancelWhere_cancelled ha fun b _ hb => .inl (decide_eq_true (hb.trans hsame))
      · cases hnext
        exact .of_open rfl hno hguard
  | leaseFailed =>
    cases hnext
    refine ⟨fun _ => rfl, nofun, fun id' hid' => ?_, hno, nofun, hguard⟩
    cases hid'
    exact hothers (.inl rfl)
  | leaseClosed =>
    cases hnext
    refine ⟨fun _ => h.stored rfl, fun _ a ha => ?_, hno, hno, nofun, hguard⟩
    exact cancelWhere_cancelled ha fun b hb _ => (h.closing id rfl b hb).imp_left fun hb' =>
      decide_eq_true hb'
  | denied dirty =>
    simp only [advanceValidate] at hnext
    split at hnext
    · cases hnext
      refine .of_open rfl (fun id' hid' => ?_) hguard
      cases hid'
      exact h.refused id rfl
    · cases hnext
      exact .of_open rfl hno hguard
  | deniedFailed =>
    cases hnext
    refine ⟨fun _ => rfl, fun _ a ha => ?_, hno, hno, nofun, hguard⟩
    rcases hothers (.inr rfl) a ha with hsame | hcancelled
    · exact h.refused id rfl a ha hsame
    · exact hcancelled
  | returned closes => cases hnext

theorem brings_release {phase phase' : ReleasePhase} (h : Brings r (.release phase))
    (hnext : r.advanceRelease ok phase = some (t, phase')) : Brings t (.release phase') := by
  cases phase with
  | entered => cases hnext; exact .of_stored rfl rfl rfl rfl
  | closedSet =>
    cases hnext
    exact .of_swept rfl (h.stored rfl) cancelAll_cancelled rfl
  | swept =>
    cases hnext
    refine .of_closing rfl (h.stored rfl) (fun _ => h.swept rfl) fun hempty => ?_
    split at hempty
    · rename_i hok
      exact List.isEmpty_iff.mp (and_eq_true_iff.mp hok).2
    · cases hempty
  | empty =>
    cases hnext
    exact .of_closing rfl (h.stored rfl) (fun _ => h.swept rfl) fun _ => h.empty rfl
  | returned ok => cases hnext

theorem brings_advance (h : Brings r c)
    (hothers : ∀ id, c = .validate id .leaseFailed ∨ c = .validate id .deniedFailed →
      ∀ a ∈ r.active, a.id = id ∨ a.cancelled)
    (hnext : r.advance limits ok refused c = some (t, c')) : Brings t c' := by
  cases c with
  | admission request phase =>
    obtain ⟨⟨t, phase'⟩, -, ⟨⟩⟩ := Option.map_eq_some_iff.mp hnext
    exact .of_blank rfl rfl
  | mutate m phase =>
    obtain ⟨⟨t, phase'⟩, hphase, ⟨⟩⟩ := Option.map_eq_some_iff.mp hnext
    exact brings_mutation h hphase
  | close dirty phase =>
    obtain ⟨⟨t, phase'⟩, hphase, ⟨⟩⟩ := Option.map_eq_some_iff.mp hnext
    exact brings_close h hphase
  | validate id phase =>
    obtain ⟨⟨t, phase'⟩, hphase, ⟨⟩⟩ := Option.map_eq_some_iff.mp hnext
    refine brings_validate h (closes_advance rfl hnext).2.2.2 (fun hor => hothers id ?_) hphase
    rcases hor with rfl | rfl
    · exact .inl rfl
    · exact .inr rfl
  | release phase =>
    obtain ⟨⟨t, phase'⟩, hphase, ⟨⟩⟩ := Option.map_eq_some_iff.mp hnext
    exact brings_release h hphase

/-! ### Steps and runs -/

theorem fenced_registers (hfenced : s.fenced limits (.next i ok refused))
    (hc : s.calls[i]? = some c) (hnext : s.registry.advance limits ok refused c = some (t, c'))
    (hregisters : s.registry.Registers c t c') : s.registry.closed = false := by
  obtain ⟨r, epoch, readAt, rfl, rfl, -⟩ := hregisters
  cases ok with
  | false => cases hnext
  | true =>
    have hreturned : (s.registry.register limits r epoch readAt).2 =
      .returned (some s.registry.next) :=
      (Call.admission.inj (congrArg Prod.snd (Option.some.inj hnext))).2
    simpa [fenced, hc, hreturned] using hfenced

theorem fenced_others (hfenced : s.fenced limits (.next i ok refused))
    (hc : s.calls[i]? = some c) (id : ℕ)
    (hor : c = .validate id .leaseFailed ∨ c = .validate id .deniedFailed) :
    ∀ a ∈ s.registry.active, a.id = id ∨ a.cancelled := by
  have hall : (s.registry.active.all fun a => decide (a.id = id) || a.cancelled) = true := by
    rcases hor with rfl | rfl
    · simpa only [fenced, hc] using hfenced
    · simpa only [fenced, hc] using hfenced
  intro a ha
  have hone := all_eq_true.mp hall a ha
  rwa [or_eq_true, decide_eq_true_eq] at hone

variable {u : Authority} {e : Event}

/-- What a step does to the calls and the guards. -/
theorem step_cases (h : s.Step limits e u) :
    (∃ c, u.calls = s.calls ++ [c] ∧ s.registry.Fewer u.registry ∧ c.stored = false ∧
      c.refusedGuard = none ∧
      (c.guardOf = none ∨ ∃ a ∈ s.registry.active, c.guardOf = some a.id) ∧ c.admitted = none) ∨
    (u.calls = s.calls ∧ s.registry.Fewer u.registry) ∨
    ∃ i ok refused c r c', e = .next i ok refused ∧ s.calls[i]? = some c ∧
      s.registry.advance limits ok refused c = some (r, c') ∧ u = ⟨r, s.calls.set i c'⟩ := by
  revert h
  unfold Authority.Step
  fun_cases step limits s e with
  | case2 | case5 | case9 => rintro ⟨⟩; exact .inl ⟨_, rfl, .refl _, rfl, rfl, .inl rfl, rfl⟩
  | case3 => rintro ⟨⟩; exact .inl ⟨_, rfl, .of_active, rfl, rfl, .inl rfl, rfl⟩
  | case6 id hopen =>
    rintro ⟨⟩
    obtain ⟨a, ha, hlive⟩ := any_eq_true.mp hopen.2
    have hsame : a.id = id := of_decide_eq_true (Bool.and_eq_true_iff.mp hlive).1
    exact .inl ⟨_, rfl, .refl _, rfl, rfl, .inr ⟨a, ha, congrArg some hsame.symm⟩, rfl⟩
  | case10 id =>
    rintro ⟨⟩
    exact .inr (.inl
      ⟨rfl, rfl, fun hclosed => hclosed, fun a ha => ⟨a, (mem_filter.mp ha).1, rfl, fun hc => hc⟩⟩)
  | case11 i ok refused c hc =>
    intro h
    obtain ⟨⟨r, c'⟩, hnext, rfl⟩ := Option.map_eq_some_iff.mp h
    exact .inr (.inr ⟨i, ok, refused, c, r, c', rfl, hc, hnext, rfl⟩)
  | _ => rintro ⟨⟩

theorem Sealed.step (h : Sealed s) (hstep : s.FencedStep limits e u) : Sealed u := by
  obtain ⟨hstep, hfenced⟩ := hstep
  rcases step_cases hstep with ⟨c, hcalls, hfewer, hstored, hrefused, hguard,
    -⟩ | ⟨hcalls, hfewer⟩ | ⟨i, ok, refused, c, r, c', rfl, hc, hnext, rfl⟩
  · have hbrings : Brings u.registry c := by
      refine .of_open hstored (fun id hid => absurd hid (hrefused ▸ Option.not_mem_none id))
        fun id hid => ?_
      rcases hguard with hnone | ⟨a, ha, hsame⟩
      · exact absurd hid (hnone ▸ Option.not_mem_none id)
      · rw [hsame] at hid
        cases hid
        rw [hfewer.next]
        exact h.ids a ha
    have hentered := h.enter hfewer hbrings
    rwa [← hcalls] at hentered
  · exact ⟨fun d hd => (h.brings d (hcalls ▸ hd)).fewer hfewer, h.ids_of_fewer hfewer⟩
  · rcases fewer_advance hnext with hregisters | ⟨hfewer, -⟩
    · exact h.register (fenced_registers hfenced hc hnext hregisters) hregisters
    · exact h.move hfewer
        (brings_advance (h.brings c (mem_of_getElem? hc)) (fenced_others hfenced hc) hnext)

theorem sealed_of_run {tr : List Event} (h : Run (Authority.FencedStep limits) .initial tr s) :
    Sealed s :=
  h.invariant ⟨fun _ hc => absurd hc not_mem_nil, fun _ ha => absurd ha not_mem_nil⟩
    fun hs hstep => hs.step hstep

/-- The admission has returned the guard. -/
def Authority.Admitted (s : Authority) (i id : ℕ) : Prop := ∃ c, s.calls[i]? = some c ∧
    c.admitted = some id

/-- From a closed authority on, no guard is added and no admission returns
one. -/
theorem closed_step (hstep : s.FencedStep limits e u) (hclosed : s.registry.closed) :
    s.registry.Fewer u.registry ∧ ∀ j id, u.Admitted j id → s.Admitted j id := by
  obtain ⟨hstep, hfenced⟩ := hstep
  rcases step_cases hstep with ⟨c, hcalls, hfewer, -, -, -, hnone⟩ | ⟨hcalls, hfewer⟩ |
    ⟨i, ok, refused, c, r, c', rfl, hc, hnext, rfl⟩
  · refine ⟨hfewer, fun j id ⟨d, hj, hd⟩ => ?_⟩
    rw [hcalls] at hj
    rcases getElem?_snoc hj with hj | ⟨-, rfl⟩
    · exact ⟨d, hj, hd⟩
    · rw [hnone] at hd
      cases hd
  · exact ⟨hfewer, fun j id ⟨d, hj, hd⟩ => ⟨d, hcalls ▸ hj, hd⟩⟩
  · rcases fewer_advance hnext with hregisters | ⟨hfewer, hnone⟩
    · rw [fenced_registers hfenced hc hnext hregisters] at hclosed
      cases hclosed
    · refine ⟨hfewer, fun j id ⟨d, hj, hd⟩ => ⟨d, ?_, hd⟩⟩
      rcases getElem?_set_cases hj with ⟨-, rfl⟩ | ⟨-, hj⟩
      · rw [hnone] at hd
        cases hd
      · exact hj

theorem closed_run {tr : List Event} (h : Run (Authority.FencedStep limits) s tr u)
    (hclosed : s.registry.closed) :
    s.registry.Fewer u.registry ∧ ∀ j id, u.Admitted j id → s.Admitted j id := by
  refine h.invariant ⟨.refl _, fun _ _ hj => hj⟩ fun ⟨hfewer, hadmitted⟩ hstep => ?_
  obtain ⟨hfewer', hadmitted'⟩ := closed_step hstep (hfewer.closed hclosed)
  exact ⟨hfewer.trans hfewer', fun j id hj => hadmitted j id (hadmitted' j id hj)⟩

/-- **A closed authority stays closed**, in every run in which an admission
registers its guard only while the authority is open, and a `validate` closes it
only once the other guards are cancelled. When a closing call has returned, then
and ever after every registered guard is cancelled and no admission returns a
guard; and a `release_clean` has returned `Ok` only when no guard is registered,
then or later. -/
theorem closed_stays_closed {u : Authority} {tr later : List Event}
    (h : Run (Authority.FencedStep limits) .initial tr s)
    (h' : Run (Authority.FencedStep limits) s later u) (hc : c ∈ s.calls) (hswept : c.swept) :
    u.registry.closed ∧ (∀ a ∈ u.registry.active, a.cancelled) ∧
    (∀ i id, u.Admitted i id → s.Admitted i id) ∧
    (Call.release (.returned true) ∈ s.calls → u.registry.active = []) := by
  have hsealed := sealed_of_run h
  have hclosed := (hsealed.brings c hc).stored (stored_of_swept hswept)
  obtain ⟨hfewer, hadmitted⟩ := closed_run h' hclosed
  exact ⟨hfewer.closed hclosed, hfewer.cancelled ((hsealed.brings c hc).swept hswept), hadmitted,
    fun hrelease => hfewer.empty ((hsealed.brings _ hrelease).empty rfl)⟩

end Steps

/-- A guard is registered, the authority stops and the guard goes. -/
def stoppedRun : List Event :=
  [.admission sampleRequest, .next 0 true none, .next 0 true none, .next 0 true none,
    .close false, .next 1 true none, .next 1 true none, .next 1 true none]

def releasedRun : List Event :=
  [.dropGuard 1, .release, .next 2 true none, .next 2 true none, .next 2 true none,
    .next 2 true none]

theorem closed_stays_closed_sample :
    ∃ s u, Run (Authority.FencedStep sampleLimits) .initial stoppedRun s ∧
    s.registry.active = [⟨1, 10, 20, 30, true, 0⟩] ∧ Call.close false .returned ∈ s.calls ∧
    Run (Authority.FencedStep sampleLimits) s releasedRun u ∧ Call.release
    (.returned true) ∈ u.calls ∧ u.registry.closed ∧ ∀ a ∈ u.registry.active, a.cancelled := by
  let next := Runs.guarded (step sampleLimits) (fenced sampleLimits)
  have hrun := (Runs.steps_get next .initial stoppedRun (by decide +kernel)).mono
    Runs.guarded_eq_some
  have hlater := (Runs.steps_get next
    ((Runs.steps next .initial stoppedRun).get (by decide +kernel)) releasedRun
    (by decide +kernel)).mono Runs.guarded_eq_some
  have hclosed := closed_stays_closed hrun hlater
    (show Call.close false .returned ∈ _ by decide +kernel) rfl
  exact ⟨_, _, hrun, by decide +kernel, by decide +kernel, hlater, by decide +kernel, hclosed.1,
    hclosed.2.1⟩

/-! Without the fence: an admission past its check when the authority closes,
the same around a clean release, and a `validate` that loses its lease beside
another guard. -/

def closedUnderAdmission : List Event :=
  [.admission sampleRequest, .next 0 true none, .next 0 true none,
    .close true, .next 1 true none, .next 1 true none, .next 1 true none, .next 0 true none]

def releasedUnderAdmission : List Event :=
  [.admission sampleRequest, .next 0 true none, .next 0 true none,
    .release, .next 1 true none, .next 1 true none, .next 1 true none, .next 1 true none,
    .next 0 true none]

def closedByValidate : List Event :=
  [.admission sampleRequest, .next 0 true none, .next 0 true none, .next 0 true none,
    .admission sampleRequest, .next 1 true none, .next 1 true none, .next 1 true none,
    .validate 1, .next 2 false none, .next 2 true none, .next 2 true none]

/-- A closed authority with a guard that is not cancelled, by each of them. -/
theorem open_after_close :
    (∃ s, Run (Authority.Step sampleLimits) .initial closedUnderAdmission s ∧ s.registry.closed ∧
      s.calls = [.admission sampleRequest (.returned (some 1)), .close true .returned] ∧
      s.registry.active = [⟨1, 10, 20, 30, false, 0⟩]) ∧
    (∃ s, Run (Authority.Step sampleLimits) .initial releasedUnderAdmission s ∧ s.registry.closed ∧
      s.calls = [.admission sampleRequest (.returned (some 1)), .release (.returned true)] ∧
      s.registry.active = [⟨1, 10, 20, 30, false, 0⟩]) ∧
    ∃ s, Run (Authority.Step sampleLimits) .initial closedByValidate s ∧ s.registry.closed ∧
      Call.validate 1 (.returned true) ∈ s.calls ∧
      s.registry.active = [⟨1, 10, 20, 30, true, 0⟩, ⟨2, 10, 20, 30, false, 0⟩] := by
  refine ⟨?_, ?_, ?_⟩
  · exact ⟨_, Runs.steps_get _ _ _ (by decide +kernel), by decide +kernel⟩
  · exact ⟨_, Runs.steps_get _ _ _ (by decide +kernel), by decide +kernel⟩
  · exact ⟨_, Runs.steps_get _ _ _ (by decide +kernel), by decide +kernel⟩

end Pohunek.Relay
