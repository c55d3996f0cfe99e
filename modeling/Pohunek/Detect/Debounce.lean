/-
# Debounced detection

When idle or blocked evidence is published, told from the calls alone. The
observations of the evidence that count are those of the maximal suffix of the
history that nothing interrupts (`observations`). `counted` counts them
greedily, an observation a spacing after the last counted one. The pending
candidate is the summary of that suffix (`candidate`), which is the invariant
`Summarised`; `detection_debounce` reads the guard of the machine off it.
-/
import Pohunek.Detect.Machine
import Mathlib.Data.List.DropRight

namespace Pohunek.Detect

open StateMachine List Event

/-! ### Counting at a spacing -/

/-- The times counted after one that was counted at `last`. -/
def countedAfter (spacing : ℕ) : ℕ → List ℕ → List ℕ
  | _, [] => []
  | last, t :: ts => if last + spacing ≤ t then t :: countedAfter spacing t ts
    else countedAfter spacing last ts

/-- The times counted greedily from the first one on. -/
def counted (spacing : ℕ) : List ℕ → List ℕ
  | [] => []
  | t :: ts => t :: countedAfter spacing t ts

theorem countedAfter_snoc (spacing t : ℕ) : ∀ (last : ℕ) (ts : List ℕ),
    countedAfter spacing last (ts ++ [t]) = countedAfter spacing last ts ++
      if (countedAfter spacing last ts).getLastD last + spacing ≤ t then [t] else []
  | last, [] => by simp [countedAfter]
  | last, s :: ts => by
    rw [cons_append, countedAfter, countedAfter]
    by_cases hs : last + spacing ≤ s
    · rw [if_pos hs, if_pos hs, countedAfter_snoc spacing t s ts, getLastD_cons, cons_append]
    · rw [if_neg hs, if_neg hs, countedAfter_snoc spacing t last ts]

/-- The last counted time is one of the times. -/
theorem getLastD_countedAfter_mem (spacing : ℕ) : ∀ (last : ℕ) (ts : List ℕ),
    (countedAfter spacing last ts).getLastD last ∈ last :: ts
  | last, [] => by simp [countedAfter]
  | last, s :: ts => by
    rw [countedAfter]
    split_ifs
    · rw [getLastD_cons]
      exact mem_cons_of_mem _ (getLastD_countedAfter_mem spacing s ts)
    · have hmem := getLastD_countedAfter_mem spacing last ts
      rcases mem_cons.mp hmem with heq | hmem
      · rw [heq]
        exact mem_cons_self
      · exact mem_cons_of_mem _ (mem_cons_of_mem _ hmem)

/-! ### The history -/

namespace Event

/-- The call emits a transition that was not published before it. -/
def publishes (e : Event) : Bool := e.emitted.isSome && e.emitted ≠ e.before

/-- The call ends the observations of `E` before it: bytes, working evidence,
other idle or blocked evidence, a publication or `clear_pending`. -/
def interrupts (E : ActivityEvidence) (e : Event) : Bool :=
  e.publishes ||
    match e.call with
    | .bytes | .clearPending => true
    | .tick => false
    | .evidence E' =>
      match E'.activity with
      | .working => true
      | .blocked | .idle => E' ≠ E
      | .unknown => false

theorem interrupts_of_ne {E E' : ActivityEvidence} {e : Event} (hcall : e.call = .evidence E')
    (hdebounced : E'.Debounced) (hne : E' ≠ E) : e.interrupts E := by
  rcases hdebounced with hactivity | hactivity
  · simp [interrupts, hcall, hactivity, hne]
  · simp [interrupts, hcall, hactivity, hne]

theorem publishes_of_current {e : Event} (h : e.emitted = none ∨ e.emitted = e.before) :
    e.publishes = false := by
  rcases h with hnone | hsame
  · simp [publishes, hnone]
  · simp [publishes, hsame]

end Event

/-- The times of the observations of `E` that nothing interrupts up to the
end of the history. -/
def observations (E : ActivityEvidence) (tr : List Event) : List ℕ :=
  ((tr.rtakeWhile fun e => !e.interrupts E).filter (·.call = .evidence E)).map (·.now)

theorem observations_snoc (E : ActivityEvidence) (tr : List Event) (e : Event) :
    observations E (tr ++ [e]) =
      if e.interrupts E then [] else observations E tr ++ if e.call = .evidence E then [e.now]
        else [] := by
  unfold observations
  rw [rtakeWhile_concat]
  by_cases hinterrupts : e.interrupts E
  · simp [hinterrupts]
  · simp only [hinterrupts, Bool.not_false, if_true, filter_append, map_append]
    by_cases hcall : e.call = .evidence E <;> simp [hcall]

variable {E : ActivityEvidence}

theorem observations_mem {tr : List Event} {t : ℕ} (h : t ∈ observations E tr) :
    ∃ e ∈ tr, e.now = t := by
  obtain ⟨e, he, rfl⟩ := mem_map.mp h
  have hsuffix : (tr.rtakeWhile fun e => !e.interrupts E) <:+ tr := rtakeWhile_suffix _ _
  exact ⟨e, hsuffix.subset (mem_filter.mp he).1, rfl⟩

/-! ### The candidate -/

/-- The candidate of evidence observed at the given times. -/
def candidate (config : DetectionConfig) (E : ActivityEvidence) : List ℕ → Option PendingCandidate
  | [] => none
  | first :: ts =>
    some ⟨E, first, (countedAfter config.recheckAfter first ts).getLastD first,
      (counted config.recheckAfter (first :: ts)).length⟩

variable {config : DetectionConfig}

/-- One more observation is noted. -/
theorem candidate_snoc {t : ℕ} :
      ∀ {ts : List ℕ}, (∀ s ∈ ts, s ≤ t) → candidate config E (ts ++ [t]) =
        some (match candidate config E ts with
          | some pending => pending.noteObserved t config
          | none => .new t E)
  | [], _ => rfl
  | first :: ts, hle => by
    have hlast := hle _ (getLastD_countedAfter_mem config.recheckAfter first ts)
    have hspaced : config.recheckAfter ≤
      t - (countedAfter config.recheckAfter first ts).getLastD first ↔
        (countedAfter config.recheckAfter first ts).getLastD first + config.recheckAfter ≤
        t := by omega
    simp only [cons_append, candidate, counted, PendingCandidate.noteObserved, hspaced,
      countedAfter_snoc]
    split_ifs
    · simp
    · simp

/-- The candidate sums up the observations of evidence that is not
published. -/
def Summarised (E : ActivityEvidence) (tr : List Event) (m : StateMachine) : Prop :=
  m.current ≠ some E.into →
    m.pending.filter (·.evidence = E) = candidate m.config E (observations E tr)

theorem noted_eq {m : StateMachine} (now : ℕ) :
    m.noted now E = match m.pending.filter (·.evidence = E) with
      | some pending => pending.noteObserved now m.config
      | none => .new now E := by
  unfold noted
  cases hpending : m.pending with
  | none => rfl
  | some pending => by_cases hsame : pending.evidence = E <;> simp [Option.filter, hsame]

section Steps

variable {E : ActivityEvidence} {tr : List Event} {m m' : StateMachine} {e : Event}

/-- The noted candidate is that of the observations with this one. -/
theorem Summarised.noted (h : Summarised E tr m) (hchanges : m.current ≠ some E.into)
    (hle : ∀ s ∈ observations E tr, s ≤ e.now) :
    candidate m.config E (observations E tr ++ [e.now]) = some (m.noted e.now E) := by
  rw [candidate_snoc hle, noted_eq, h hchanges]

/-- **A call keeps the summary.** -/
theorem Summarised.step (h : Summarised E tr m) (hE : E.Debounced) (hstep : m.Step e m')
    (hle : ∀ s ∈ observations E tr, s ≤ e.now) : Summarised E (tr ++ [e]) m' := by
  -- a call that interrupts has dropped the candidate of `E`
  have hdropped : e.interrupts E → m'.pending.filter (·.evidence = E) = none →
      Summarised E (tr ++ [e]) m' := by
    intro hinterrupts hnone _
    rw [hnone, observations_snoc, if_pos hinterrupts]
    rfl
  -- what is published needs no candidate
  have hknown : ∀ E' : ActivityEvidence, e.call = .evidence E' → E'.Debounced →
      m'.current = some E'.into → m'.pending = none → Summarised E (tr ++ [e]) m' := by
    intro E' call debounced hcurrent hnone
    by_cases hsame : E' = E
    · subst hsame
      exact fun hchanges => absurd hcurrent hchanges
    · exact hdropped (interrupts_of_ne call debounced hsame) (by rw [hnone]; rfl)
  obtain ⟨hkept, heffect⟩ := hstep.effect
  cases heffect with
  | worked call pending emitted =>
    apply hdropped
    · rcases call with call | ⟨E', call, hactivity⟩
      · simp [interrupts, call]
      · simp [interrupts, call, hactivity]
    · rw [pending]
      rfl
  | cleared call pending =>
    apply hdropped
    · simp [interrupts, call]
    · rw [pending]
      rfl
  | passed call pending emitted current =>
    intro hchanges
    have hquiet : e.publishes = false := publishes_of_current (hstep.before ▸ emitted)
    have hpasses : e.interrupts E = false ∧ e.call ≠ .evidence E := by
      rcases call with call | ⟨E', call, hactivity⟩
      · simp [interrupts, call, hquiet]
      · refine ⟨by simp [interrupts, call, hactivity, hquiet], ?_⟩
        rw [call]
        rintro ⟨⟩
        exact hE.not_unknown hactivity
    rw [current] at hchanges
    rw [pending, observations_snoc, if_neg (by simp [hpasses.1]), if_neg hpasses.2, append_nil,
      hkept.config]
    exact h hchanges
  | repeated E' call debounced published pending emitted current =>
    exact hknown E' call debounced (current.trans published) pending
  | published E' call debounced changes ready pending emitted current =>
    exact hknown E' call debounced current pending
  | waits E' call debounced changes ready pending emitted current =>
    have hquiet : e.publishes = false := publishes_of_current (.inl emitted)
    have hevidence := m.noted_evidence e.now E'
    by_cases hsame : E' = E
    · subst hsame
      intro _
      have hpasses : e.interrupts E' = false := by
        rcases debounced with hactivity | hactivity
        · simp [interrupts, call, hactivity, hquiet]
        · simp [interrupts, call, hactivity, hquiet]
      rw [observations_snoc, if_neg (by simp [hpasses]), if_pos call, hkept.config,
        h.noted changes hle, pending]
      simp [Option.filter, hevidence]
    · apply hdropped
      · exact interrupts_of_ne call debounced hsame
      · rw [pending]
        simp [Option.filter, hevidence, hsame]

end Steps

/-- The summary holds after every run with times that do not go back. -/
theorem summarised_run {startedAt : ℕ} {tr : List Event} {m : StateMachine}
    (hE : E.Debounced) (h : MachineRun startedAt config tr m)
    (hmono : (tr.map (·.now)).Pairwise (· ≤ ·)) : Summarised E tr m := by
  refine h.history ?_ ?_ hmono
  · intro _ _
    rfl
  · intro tr t e u _ ih hstep hmono
    rw [map_append, map_singleton, pairwise_append] at hmono
    obtain ⟨hbefore, -, hlast⟩ := hmono
    apply (ih hbefore).step hE hstep
    intro s hs
    obtain ⟨e', he', rfl⟩ := observations_mem hs
    exact hlast _ (mem_map_of_mem he') _ mem_cons_self

/-! ### The guard -/

/-- The observations suffice: enough of them are counted, or the first is the
cap ago. -/
def Suffices (config : DetectionConfig) (ts : List ℕ) (now : ℕ) : Prop :=
  config.confirmations ≤ (counted config.recheckAfter ts).length ∨
    ∃ first, ts.head? = some first ∧ first + config.cap ≤ now

theorem candidate_suffices {now : ℕ} {pending : PendingCandidate} :
    ∀ {ts : List ℕ}, (∀ s ∈ ts, s ≤ now) → candidate config E ts = some pending →
      (Suffices config ts now ↔
        config.confirmations ≤ pending.confirmations ∨ config.cap ≤ now - pending.firstSeenAt)
  | first :: ts, hle, h => by
    cases h
    have hfirst := hle first mem_cons_self
    have hcap : config.cap ≤ now - first ↔ first + config.cap ≤ now := by omega
    simp [Suffices, hcap]

/-- **Detection is debounced.** In every run with times that do not go back, a
call emits idle or blocked evidence that is not published iff it is an
observation of that evidence after the startup grace, and with it the
observations that nothing interrupted suffice. A tick never changes what is
published. -/
theorem detection_debounce {startedAt : ℕ} {config : DetectionConfig} {tr : List Event}
    {m m' : StateMachine} {e : Event} (hrun : MachineRun startedAt config tr m)
    (hstep : m.Step e m') (hmono : ((tr ++ [e]).map (·.now)).Pairwise (· ≤ ·)) :
    (∀ E : ActivityEvidence, E.Debounced → m.current ≠ some E.into →
      (e.emitted = some E.into ↔
        e.call = .evidence E ∧ config.normalized.startupGrace ≤ e.now - startedAt ∧
          Suffices config.normalized (observations E tr ++ [e.now]) e.now)) ∧
    (e.call = .tick → m'.current = m.current) := by
  rw [map_append, map_singleton, pairwise_append] at hmono
  obtain ⟨hbefore, -, hlast⟩ := hmono
  obtain ⟨hstarted, hconfig⟩ := kept_run hrun
  obtain ⟨-, heffect⟩ := hstep.effect
  refine ⟨fun E hE hchanges => ?_, fun htick => ?_⟩
  · have hle : ∀ s ∈ observations E tr, s ≤ e.now := by
      intro s hs
      obtain ⟨e', he', rfl⟩ := observations_mem hs
      exact hlast _ (mem_map_of_mem he') _ mem_cons_self
    -- an observation of `E` is ready iff it is late enough and suffices
    have hready : m.pendingReady e.now (m.noted e.now E) = true ↔
        config.normalized.startupGrace ≤ e.now - startedAt ∧
          Suffices config.normalized (observations E tr ++ [e.now]) e.now := by
      have hnoted := (summarised_run hE hrun hbefore).noted hchanges hle
      rw [hconfig] at hnoted
      have hle' : ∀ s ∈ observations E tr ++ [e.now], s ≤ e.now := List.forall_mem_snoc hle le_rfl
      rw [candidate_suffices hle' hnoted]
      simp [pendingReady, startupGraceElapsed, hconfig, hstarted]
    -- what is published is not what is emitted
    have hquiet : e.emitted = none ∨ e.emitted = m.current → e.emitted ≠ some E.into := by
      rintro (hnone | hsame)
      · rw [hnone]
        nofun
      · rwa [hsame]
    cases heffect with
    | worked call pending emitted =>
      refine ⟨fun hemitted => absurd (emitted _ hemitted) hE.not_working, fun hcall => ?_⟩
      rcases call with call | ⟨E', call, hactivity⟩
      · cases call.symm.trans hcall.1
      · cases call.symm.trans hcall.1
        exact absurd hactivity hE.not_working
    | cleared call pending emitted => simp [call, emitted]
    | passed call pending emitted current =>
      refine ⟨fun hemitted => absurd hemitted (hquiet emitted), fun hcall => ?_⟩
      rcases call with call | ⟨E', call, hactivity⟩
      · cases call.symm.trans hcall.1
      · cases call.symm.trans hcall.1
        exact absurd hactivity hE.not_unknown
    | repeated E' call debounced published pending emitted =>
      refine ⟨fun hemitted => absurd hemitted (hquiet emitted), fun hcall => ?_⟩
      cases call.symm.trans hcall.1
      exact absurd published hchanges
    | published E' call debounced changes ready pending emitted =>
      rw [call, emitted, Option.some.injEq, ActivityEvidence.into_inj, Call.evidence.injEq]
      refine ⟨?_, And.left⟩
      rintro rfl
      exact ⟨rfl, hready.mp ready⟩
    | waits E' call debounced changes ready pending emitted =>
      rw [call, emitted, Call.evidence.injEq]
      refine ⟨nofun, ?_⟩
      rintro ⟨rfl, hguard⟩
      rw [hready.mpr hguard] at ready
      exact absurd ready nofun
  · cases heffect with
    | worked call =>
      rcases call with call | ⟨E', call, -⟩ <;> cases call.symm.trans htick
    | cleared call => cases call.symm.trans htick
    | passed call pending emitted current => exact current
    | repeated E' call | published E' call | waits E' call => cases call.symm.trans htick

/-- A blocked screen, confirmed with a tick and evidence of no activity in
between, and one observation that is too early to count. -/
def sampleCalls : List (ℕ × Call) :=
  [(100, .bytes), (3000, .evidence ⟨.blocked, .screen⟩), (3050, .evidence ⟨.blocked, .screen⟩),
    (3060, .tick), (3100, .evidence ⟨.blocked, .screen⟩), (3150, .evidence ⟨.unknown, .report⟩)]

theorem detection_debounce_confirmed :
    (((new 0 .default).play sampleCalls).1.observeEvidence 3200 ⟨.blocked, .screen⟩).2 =
      some ⟨.blocked, .screen⟩ := by
  have hrun := play_run sampleCalls (.new 0 .default)
  have hstep := step_call ((new 0 .default).play sampleCalls).1 3200
    (.evidence ⟨.blocked, .screen⟩)
  have hguard := (detection_debounce hrun hstep (by decide +kernel)).1 ⟨.blocked, .screen⟩
    (.inl rfl) (by decide +kernel)
  exact hguard.mpr ⟨rfl, by decide +kernel, .inl (by decide +kernel)⟩

end Pohunek.Detect
