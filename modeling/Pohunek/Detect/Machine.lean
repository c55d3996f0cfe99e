/-
# The detection state machine

The machine of `crates/daemon/src/detect/machine.rs`. Working evidence is
published at once; idle and blocked evidence waits as a `PendingCandidate`
until it was confirmed often enough or has waited for the cap. Instants and
durations are natural numbers of one unit, `saturating_duration_since` is the
subtraction of `ℕ`.

`StateMachine.Step` is one call with what it emitted, and `Effect` says once
what a call does to the candidate and to the published transition
(`StateMachine.Step.effect`).
-/
import Pohunek.Lib.Run

namespace Pohunek.Detect

inductive AgentActivity
  | working | blocked | idle | unknown
  deriving DecidableEq

inductive StateSource
  | oscTitle | oscProgress | screen | process | report | unknown
  deriving DecidableEq

structure ActivityEvidence where
  activity : AgentActivity
  source : StateSource
  deriving DecidableEq

structure ActivityTransition where
  activity : AgentActivity
  source : StateSource
  deriving DecidableEq

/-- `From<ActivityEvidence> for ActivityTransition`. -/
def ActivityEvidence.into (evidence : ActivityEvidence) : ActivityTransition :=
  ⟨evidence.activity, evidence.source⟩

variable {E : ActivityEvidence}

theorem ActivityEvidence.into_inj {E' : ActivityEvidence} : E.into = E'.into ↔ E = E' := by
  cases E
  cases E'
  simp [into]

/-- Idle and blocked evidence is debounced. -/
def ActivityEvidence.Debounced (evidence : ActivityEvidence) : Prop :=
  evidence.activity = .blocked ∨ evidence.activity = .idle

theorem ActivityEvidence.Debounced.not_working (h : E.Debounced) : E.activity ≠ .working := by
  rcases h with h | h
  · rw [h]; exact nofun
  · rw [h]; exact nofun

theorem ActivityEvidence.Debounced.not_unknown (h : E.Debounced) : E.activity ≠ .unknown := by
  rcases h with h | h
  · rw [h]; exact nofun
  · rw [h]; exact nofun

structure DetectionConfig where
  recheckAfter : ℕ
  confirmations : ℕ
  cap : ℕ
  stableVisibleRefresh : ℕ
  startupGrace : ℕ
  deriving DecidableEq

/-- The tuned defaults, in milliseconds. -/
def DetectionConfig.default : DetectionConfig where
  recheckAfter := 100
  confirmations := 3
  cap := 700
  stableVisibleRefresh := 800
  startupGrace := 3000

def DetectionConfig.normalized (config : DetectionConfig) : DetectionConfig :=
  { config with confirmations := max config.confirmations 1 }

def isVisibleSource : StateSource → Bool
  | .oscTitle | .oscProgress | .screen => true
  | _ => false

structure PublishedState where
  transition : ActivityTransition
  emittedAt : ℕ
  deriving DecidableEq

structure PendingCandidate where
  evidence : ActivityEvidence
  firstSeenAt : ℕ
  lastCountedAt : ℕ
  confirmations : ℕ
  deriving DecidableEq

namespace PendingCandidate

def new (now : ℕ) (evidence : ActivityEvidence) : PendingCandidate := ⟨evidence, now, now, 1⟩

def noteObserved (pending : PendingCandidate) (now : ℕ) (config : DetectionConfig) :
    PendingCandidate :=
  if config.recheckAfter ≤ now - pending.lastCountedAt then
    { pending with lastCountedAt := now, confirmations := pending.confirmations + 1 }
  else pending

end PendingCandidate

structure StateMachine where
  startedAt : ℕ
  config : DetectionConfig
  published : Option PublishedState
  lastEmitted : Option ActivityTransition
  pending : Option PendingCandidate
  deriving DecidableEq

namespace StateMachine

def new (startedAt : ℕ) (config : DetectionConfig) : StateMachine :=
  ⟨startedAt, config.normalized, none, none, none⟩

variable (m : StateMachine) (now : ℕ)

/-! ### Publishing -/

variable (transition : ActivityTransition)

def recordPublished : StateMachine :=
  { m with published := some ⟨transition, now⟩ }

def publish : StateMachine × Option ActivityTransition :=
  ({ m with lastEmitted := some transition }.recordPublished now transition, some transition)

def refreshDue (published : PublishedState) : Bool :=
  isVisibleSource published.transition.source && m.config.stableVisibleRefresh ≤
    now - published.emittedAt

def lastEmittedIsVisibleWorking : Bool :=
  m.lastEmitted.any fun transition => transition.activity == .working &&
    isVisibleSource transition.source

def publishChangedOrRefreshed : StateMachine × Option ActivityTransition :=
  match m.published with
  | some published =>
    if published.transition = transition then
      if m.refreshDue now published then m.publish now transition else (m, none)
    else m.publish now transition
  | none => m.publish now transition

def observeWorking : StateMachine × Option ActivityTransition :=
  match m.published with
  | some published =>
    if published.transition.activity = .working then
      if published.transition = transition && m.refreshDue now published then
        m.publish now transition
      else if published.transition.source = .process && transition.source ≠ .process &&
          !m.lastEmittedIsVisibleWorking then m.publish now transition
      else if transition.source = .process then (m.recordPublished now transition, none)
      else (m, none)
    else m.publish now transition
  | none => m.publish now transition

/-! ### Debouncing -/

def startupGraceElapsed : Bool := m.config.startupGrace ≤ now - m.startedAt

def pendingReady (pending : PendingCandidate) : Bool :=
  m.startupGraceElapsed now &&
    (m.config.confirmations ≤ pending.confirmations || m.config.cap ≤ now - pending.firstSeenAt)

def publishPendingIfReady : StateMachine × Option ActivityTransition :=
  match m.pending with
  | none => (m, none)
  | some pending =>
    if m.pendingReady now pending then { m with pending := none }.publish now pending.evidence.into
      else (m, none)

/-- The candidate after one more observation of `evidence`. -/
def noted (evidence : ActivityEvidence) : PendingCandidate :=
  match m.pending with
  | some pending => if pending.evidence = evidence then pending.noteObserved now m.config
    else .new now evidence
  | none => .new now evidence

def observeDebounced (evidence : ActivityEvidence) : StateMachine × Option ActivityTransition :=
  if m.published.any (·.transition = evidence.into) then
    { m with pending := none }.publishChangedOrRefreshed now evidence.into
  else { m with pending := some (m.noted now evidence) }.publishPendingIfReady now

/-! ### The calls -/

def observeBytes : StateMachine × Option ActivityTransition :=
  { m with pending := none }.observeWorking now ⟨.working, .process⟩

def observeEvidence (evidence : ActivityEvidence) : StateMachine × Option ActivityTransition :=
  match evidence.activity with
  | .working => { m with pending := none }.observeWorking now evidence.into
  | .blocked | .idle => m.observeDebounced now evidence
  | .unknown => (m, none)

def tick : StateMachine × Option ActivityTransition :=
  match m.published with
  | none => (m, none)
  | some published => if m.refreshDue now published then m.publish now published.transition
    else (m, none)

def clearPending : StateMachine := { m with pending := none }

/-- The transition that is published. -/
def current : Option ActivityTransition := m.published.map (·.transition)

end StateMachine

inductive Call
  | bytes
  | evidence (evidence : ActivityEvidence)
  | clearPending
  | tick
  deriving DecidableEq

def StateMachine.call (m : StateMachine) (now : ℕ) : Call → StateMachine × Option ActivityTransition
  | .bytes => m.observeBytes now
  | .evidence evidence => m.observeEvidence now evidence
  | .clearPending => (m.clearPending, none)
  | .tick => m.tick now

/-- A call, with the transition that was published before it and what it
emitted. -/
structure Event where
  now : ℕ
  call : Call
  before : Option ActivityTransition
  emitted : Option ActivityTransition
  deriving DecidableEq

structure StateMachine.Step (m : StateMachine) (e : Event) (m' : StateMachine) : Prop where
  returns : m.call e.now e.call = (m', e.emitted)
  before : e.before = m.current

/-- A machine that runs from `startedAt`. -/
abbrev MachineRun (startedAt : ℕ) (config : DetectionConfig) : List Event → StateMachine → Prop :=
  Runs.Run StateMachine.Step (.new startedAt config)

/-! ### What a call does -/

/-- What a call does to the candidate and to the published transition. -/
inductive Effect (m : StateMachine) (e : Event) (m' : StateMachine) : Prop
  /-- Bytes and working evidence drop the candidate. -/
  | worked (call : e.call = .bytes ∨ ∃ E : ActivityEvidence, e.call = .evidence E ∧
    E.activity = .working)
      (pending : m'.pending = none) (emitted : ∀ t, e.emitted = some t → t.activity = .working)
  | cleared (call : e.call = .clearPending)
      (pending : m'.pending = none) (emitted : e.emitted = none)
      (current : m'.current = m.current)
  /-- A tick and evidence of no activity leave the candidate alone. -/
  | passed (call : e.call = .tick ∨ ∃ E : ActivityEvidence, e.call = .evidence E ∧
    E.activity = .unknown)
      (pending : m'.pending = m.pending) (emitted : e.emitted = none ∨ e.emitted = m.current)
      (current : m'.current = m.current)
  /-- Evidence of what is published already. -/
  | repeated (E : ActivityEvidence) (call : e.call = .evidence E) (debounced : E.Debounced)
      (published : m.current = some E.into) (pending : m'.pending = none)
      (emitted : e.emitted = none ∨ e.emitted = m.current) (current : m'.current = m.current)
  | published (E : ActivityEvidence) (call : e.call = .evidence E) (debounced : E.Debounced)
      (changes : m.current ≠ some E.into) (ready : m.pendingReady e.now (m.noted e.now E))
      (pending : m'.pending = none) (emitted : e.emitted = some E.into)
      (current : m'.current = some E.into)
  | waits (E : ActivityEvidence) (call : e.call = .evidence E) (debounced : E.Debounced)
      (changes : m.current ≠ some E.into) (ready : m.pendingReady e.now (m.noted e.now E) = false)
      (pending : m'.pending = some (m.noted e.now E)) (emitted : e.emitted = none)
      (current : m'.current = m.current)

namespace StateMachine

variable {m m' : StateMachine} {now : ℕ} {transition : ActivityTransition}
    {emitted : Option ActivityTransition}

/-- What no call touches. -/
structure Kept (m m' : StateMachine) : Prop where
  startedAt : m'.startedAt = m.startedAt
  config : m'.config = m.config

theorem Kept.refl (m : StateMachine) : Kept m m := ⟨rfl, rfl⟩

/-- Working evidence emits nothing or itself, and the candidate stays as it
is. -/
theorem observeWorking_cases (h : m.observeWorking now transition = (m', emitted)) :
    Kept m m' ∧ m'.pending = m.pending ∧ (emitted = none ∨ emitted = some transition) := by
  unfold observeWorking at h
  split at h
  · split_ifs at h
    all_goals
      cases h
      exact ⟨⟨rfl, rfl⟩, rfl, by simp⟩
  · cases h
    exact ⟨⟨rfl, rfl⟩, rfl, .inr rfl⟩

/-- A published transition is emitted again or not. -/
theorem publishChangedOrRefreshed_cases (hcurrent : m.current = some transition)
    (h : m.publishChangedOrRefreshed now transition = (m', emitted)) :
    Kept m m' ∧ m'.pending = m.pending ∧ m'.current = m.current ∧
    (emitted = none ∨ emitted = m.current) := by
  obtain ⟨published, hpublished, rfl⟩ := Option.map_eq_some_iff.mp hcurrent
  unfold publishChangedOrRefreshed at h
  rw [hpublished] at h
  simp only [if_true] at h
  split_ifs at h
  · cases h
    exact ⟨⟨rfl, rfl⟩, rfl, hcurrent.symm, .inr hcurrent.symm⟩
  · cases h
    exact ⟨.refl m, rfl, rfl, .inl rfl⟩

theorem tick_cases (h : m.tick now = (m', emitted)) :
    Kept m m' ∧ m'.pending = m.pending ∧ m'.current = m.current ∧
    (emitted = none ∨ emitted = m.current) := by
  unfold tick at h
  cases hpublished : m.published with
  | none =>
    rw [hpublished] at h
    cases h
    exact ⟨.refl m, rfl, rfl, .inl rfl⟩
  | some published =>
    have hcurrent : m.current = some published.transition := by rw [current, hpublished]; rfl
    rw [hpublished] at h
    simp only at h
    split_ifs at h
    · cases h
      exact ⟨⟨rfl, rfl⟩, rfl, hcurrent.symm, .inr hcurrent.symm⟩
    · cases h
      exact ⟨.refl m, rfl, rfl, .inl rfl⟩

/-- The candidate keeps its evidence. -/
theorem noted_evidence (m : StateMachine) (now : ℕ) (E : ActivityEvidence) :
    (m.noted now E).evidence = E := by
  unfold noted PendingCandidate.noteObserved PendingCandidate.new
  split
  · split_ifs with hsame
    all_goals first | exact hsame | rfl
  · rfl

/-- Debounced evidence repeats what is published, or its candidate is
published, or its candidate waits. -/
theorem observeDebounced_cases {E : ActivityEvidence}
    (h : m.observeDebounced now E = (m', emitted)) : Kept m m' ∧
    ((m.current = some E.into ∧ m'.pending = none ∧ m'.current = m.current ∧
      (emitted = none ∨ emitted = m.current)) ∨
    (m.current ≠ some E.into ∧ m.pendingReady now (m.noted now E) ∧ m'.pending = none ∧
      emitted = some E.into ∧ m'.current = some E.into) ∨
    (m.current ≠ some E.into ∧ m.pendingReady now (m.noted now E) = false ∧
      m'.pending = some (m.noted now E) ∧ emitted = none ∧ m'.current = m.current)) := by
  have hany : m.published.any (·.transition = E.into) = true ↔ m.current = some E.into := by
    unfold current
    cases m.published <;> simp
  unfold observeDebounced at h
  split_ifs at h with hpublished
  · have hcleared : { m with pending := none }.current = some E.into := hany.mp hpublished
    obtain ⟨⟨hstarted, hconfig⟩, hpending, hcurrent, hemitted⟩ :=
      publishChangedOrRefreshed_cases hcleared h
    exact ⟨⟨hstarted, hconfig⟩, .inl ⟨hany.mp hpublished, hpending, hcurrent, hemitted⟩⟩
  · have hchanges : m.current ≠ some E.into := fun he => hpublished (hany.mpr he)
    -- readiness does not look at the candidate that is stored
    have hready : { m with pending := some (m.noted now E) }.pendingReady now (m.noted now E) =
        m.pendingReady now (m.noted now E) := rfl
    unfold publishPendingIfReady at h
    simp only [hready] at h
    split_ifs at h with hr
    · cases h
      refine ⟨⟨rfl, rfl⟩, .inr (.inl ⟨hchanges, hr, rfl, ?_, ?_⟩)⟩
      · rw [noted_evidence]
      · exact congrArg (fun E : ActivityEvidence => some E.into) (noted_evidence m now E)
    · cases h
      exact ⟨⟨rfl, rfl⟩, .inr (.inr ⟨hchanges, Bool.eq_false_iff.mpr hr, rfl, rfl, rfl⟩)⟩

/-- **Every call has one of the effects.** -/
theorem Step.effect {e : Event} (h : m.Step e m') : Kept m m' ∧ Effect m e m' := by
  obtain ⟨now, call, before, emitted⟩ := e
  have hreturns := h.returns
  -- what is emitted is the working transition
  have hworking : ∀ {emitted : Option ActivityTransition} {transition : ActivityTransition},
      emitted = none ∨ emitted = some transition → ∀ t, emitted = some t → transition = t := by
    rintro _ transition (rfl | rfl) t ht
    · cases ht
    · exact Option.some.inj ht
  cases call with
  | bytes =>
    obtain ⟨⟨hstarted, hconfig⟩, hpending, hemitted⟩ := observeWorking_cases hreturns
    exact ⟨⟨hstarted, hconfig⟩,
      .worked (.inl rfl) hpending fun t ht => hworking hemitted t ht ▸ rfl⟩
  | clearPending =>
    cases hreturns
    exact ⟨⟨rfl, rfl⟩, .cleared rfl rfl rfl rfl⟩
  | tick =>
    obtain ⟨hkept, hpending, hcurrent, hemitted⟩ := tick_cases hreturns
    exact ⟨hkept, .passed (.inl rfl) hpending hemitted hcurrent⟩
  | evidence E =>
    have hdebounced : E.Debounced → m.observeDebounced now E = (m', emitted) := by
      rintro (hactivity | hactivity)
      · simpa [StateMachine.call, observeEvidence, hactivity] using hreturns
      · simpa [StateMachine.call, observeEvidence, hactivity] using hreturns
    by_cases hE : E.Debounced
    · obtain ⟨hkept, ⟨hpublished, hpending, hcurrent, hemitted⟩ | ⟨hchanges, hready, hpending,
        hemitted, hcurrent⟩ |
        ⟨hchanges, hready, hpending, hemitted, hcurrent⟩⟩ := observeDebounced_cases (hdebounced hE)
      · exact ⟨hkept, .repeated E rfl hE hpublished hpending hemitted hcurrent⟩
      · exact ⟨hkept, .published E rfl hE hchanges hready hpending hemitted hcurrent⟩
      · exact ⟨hkept, .waits E rfl hE hchanges hready hpending hemitted hcurrent⟩
    · simp only [StateMachine.call, observeEvidence] at hreturns
      cases hactivity : E.activity with
      | blocked => exact absurd (.inl hactivity) hE
      | idle => exact absurd (.inr hactivity) hE
      | unknown =>
        rw [hactivity] at hreturns
        cases hreturns
        exact ⟨.refl m, .passed (.inr ⟨E, rfl, hactivity⟩) rfl (.inl rfl) rfl⟩
      | working =>
        rw [hactivity] at hreturns
        obtain ⟨⟨hstarted, hconfig⟩, hpending, hemitted⟩ := observeWorking_cases hreturns
        exact ⟨⟨hstarted, hconfig⟩, .worked (.inr ⟨E, rfl, hactivity⟩) hpending fun t ht =>
          hworking hemitted t ht ▸ hactivity⟩

theorem step_call (m : StateMachine) (now : ℕ) (c : Call) :
    m.Step ⟨now, c, m.current, (m.call now c).2⟩ (m.call now c).1 :=
  ⟨rfl, rfl⟩

/-- The machine after calls at the given times, and their events. -/
def play : StateMachine → List (ℕ × Call) → StateMachine × List Event
  | m, [] => (m, [])
  | m, (now, c) :: calls =>
    let next := m.call now c
    let rest := play next.1 calls
    (rest.1, ⟨now, c, m.current, next.2⟩ :: rest.2)

theorem play_run : ∀ (calls : List (ℕ × Call)) (m : StateMachine),
    Runs.Run Step m (m.play calls).2 (m.play calls).1
  | [], m => .refl m
  | (now, c) :: calls, m => .cons (m.step_call now c) (play_run calls (m.call now c).1)

/-- The start and the configuration of a machine are those it was made with. -/
theorem kept_run {startedAt : ℕ} {config : DetectionConfig} {tr : List Event}
    (h : MachineRun startedAt config tr m) :
    m.startedAt = startedAt ∧ m.config = config.normalized := by
  refine h.invariant ⟨rfl, rfl⟩ ?_
  rintro t e u ⟨hstarted, hconfig⟩ hstep
  obtain ⟨hkept, -⟩ := hstep.effect
  exact ⟨hkept.startedAt.trans hstarted, hkept.config.trans hconfig⟩

end StateMachine

end Pohunek.Detect
