/-
# Which turns are reported

A `Moment` of a run is the progress of the session, the clock and the call
made; a run is the list of its moments. A turn is surfaced when `settle`
answers so. What may be said of a surfaced turn is in its history: it left
`working` for idle, it did not run again, and until its window passed or it
was taken over the session did not enter `working`. That is the invariant
`Told`, kept by every call; the turns that can never be surfaced are those
that are abandoned.

The clock readings of a run are not restricted: they need not increase.
-/
import Pohunek.Lib.Run
import Pohunek.Turns.Life

namespace Pohunek.Turns

open Runs TurnState TurnProgress

/-! ### What a call is to a turn -/

namespace Call

/-- The owner a call is made for, where the newest turn of another one departs. -/
def caller : Call → Option TurnOwner
  | noteActivity owner .. | adopt owner | depart owner | attachReport owner => some owner
  | _ => none

/-- A turn of `owner` departs. -/
def Departs (call : Call) (id : TurnId) (owner : TurnOwner) : Prop :=
  (∃ other, other ≠ owner ∧ call.caller = some other) ∨ ∃ other ended, other ≠ owner ∧
    call = settle id (some other) ended

/-- The call ends the session, at this time. -/
def endsSession (now : ℕ) : Call → Option ℕ
  | abandonAll => some now
  | settle _ none ended => some ended
  | _ => none

/-- The session goes from `blocked` to idle. -/
def goesIdle : Call → Bool
  | noteActivity _ (some .blocked) .idle _ _ _ _ => true
  | _ => false

theorem goesIdle_iff {call : Call} : call.goesIdle = true ↔
    ∃ caller metadata wallNanos window detectorObserved,
    call = noteActivity caller
    (some .blocked) .idle metadata wallNanos window detectorObserved := by
  constructor
  · intro h
    unfold goesIdle at h
    split at h
    · exact ⟨_, _, _, _, _, rfl⟩
    · cases h
  · rintro ⟨_, _, _, _, _, rfl⟩
    rfl

/-- The last reading of the clock. -/
def clock (now : ℕ) (call : Call) : ℕ := (call.endsSession now).getD now

end Call

/-! ### What a turn can do -/

namespace TurnState

variable {state : TurnState} {previous : Option AgentActivity} {next : AgentActivity}
    {now window deadline : ℕ}
  {heard : Bool}

theorem Over.not_settling (h : state.Over) : state ≠ .settling deadline := by
  rcases h with rfl | rfl <;> simp

theorem worked_settling (h : state.worked heard previous now = .settling deadline) :
    state = .settling deadline ∧ deadline ≤ now := by
  revert h
  fun_cases state.worked heard previous now with
  | case6 d hpassed => rintro ⟨⟩; exact ⟨rfl, Nat.le_of_not_lt hpassed⟩
  | case9 state _ hsettling => exact fun h => absurd h (hsettling _)
  | _ => nofun

theorem left_settling (h : state.left previous next now window = .settling deadline) :
    state = .settling deadline ∨
      state = .opened ∧ previous = some .working ∧ next = .idle ∧ deadline = now + window := by
  unfold left at h
  split at h
  · exact .inl h
  · cases h
  · cases h
    exact .inr ⟨rfl, rfl, rfl, rfl⟩
  · cases h
  · cases h
  · exact .inl h

theorem expired_settling (h : state.expired now = .settling deadline) :
    state = .settling deadline := by
  cases state with
  | settling d =>
    rw [expired] at h
    split at h
    · exact h
    · cases h
  | _ => cases h

theorem departed_closed (h : state.departed = .closed) : state = .closed ∨ ∃ deadline,
    state = .settling deadline := by
  cases state with
  | settling d => exact .inr ⟨d, rfl⟩
  | closed => exact .inl rfl
  | _ => cases h

theorem worked_closed (h : state.worked heard previous now = .closed) :
    state = .closed ∨ ∃ deadline, state = .settling deadline ∧ deadline ≤ now := by
  cases state with
  | settling d =>
    rw [worked] at h
    split at h
    · cases h
    · exact .inr ⟨d, rfl, by omega⟩
  | closed => exact .inl rfl
  | paused =>
    rw [worked] at h
    split at h
    · cases h
    · split at h <;> cases h
  | opened =>
    rw [worked] at h
    split at h <;> cases h
  | abandoned => cases h

theorem left_closed (h : state.left previous next now window = .closed) : state = .closed := by
  unfold left at h
  split at h
  · exact h
  all_goals first | exact h | cases h

theorem ended_closed (h : state.ended now = .closed) :
    state = .closed ∨ ∃ deadline, state = .settling deadline ∧ deadline ≤ now := by
  cases state with
  | settling d =>
    rw [ended] at h
    split at h
    · exact .inr ⟨d, rfl, by assumption⟩
    · cases h
  | closed => exact .inl rfl
  | _ => cases h

theorem expired_closed (h : state.expired now = .closed) :
    state = .closed ∨ ∃ deadline, state = .settling deadline ∧ deadline ≤ now := by
  cases state with
  | settling d =>
    rw [expired] at h
    split at h
    · cases h
    · exact .inr ⟨d, rfl, by omega⟩
  | closed => exact .inl rfl
  | _ => cases h

end TurnState

section Moves

variable {call : Call} {now : ℕ} {newest : Prop} {heard : Bool} {id : TurnId} {owner : TurnOwner}
  {state state' : TurnState}

/-- The ways a call can move a turn. -/
inductive Moved (call : Call) (now : ℕ) (newest : Prop) (heard : Bool) (id : TurnId)
    (owner : TurnOwner) (state state' : TurnState) : Prop
  | same (h : ¬(newest ∧ call.entersWorking)) (hstate : state' = state)
  | departed (h : call.Departs id owner) (hstate : state' = state.departed)
  | worked {previous metadata wallNanos window detectorObserved} (hnewest : newest)
      (h : call = .noteActivity owner previous .working metadata wallNanos window detectorObserved)
      (hstate : state' = state.worked heard previous now)
  | left {previous next metadata wallNanos window detectorObserved} (hnewest : newest)
      (h : call = .noteActivity owner previous next metadata wallNanos window detectorObserved)
      (hopened : next = .working → state = .opened)
      (hstate : state' = state.left previous next now window)
  | ended {time} (h : call.endsSession now = some time) (hstate : state' = state.ended time)
  | expired (h : call.entersWorking = false) (hclock : call.clock now = now)
      (hstate : state' = state.expired now)
  | stopped (h : state.Live) (hstate : state' = .abandoned)

/-- **What a call does to a turn**: one of the ways above. A turn that departed
is over, so nothing else moves it. -/
theorem moves_moved (call : Call) (now : ℕ) (newest : Prop) [Decidable newest] (heard : Bool)
    (id : TurnId) (owner : TurnOwner) (state : TurnState) :
    Moved call now newest heard id owner state (call.moves now newest heard id owner state) := by
  have hgone := state.departed_over
  cases call with
  | noteActivity caller previous next metadata wallNanos window detectorObserved =>
    by_cases hnewest : newest
    · by_cases howner : owner = caller
      · subst howner
        by_cases henters : next = .working ∧ (previous ≠ some .working ∨ state ≠ .opened)
        · obtain ⟨rfl, henters⟩ := henters
          exact .worked hnewest rfl (by simp [Call.moves, hnewest, henters])
        · refine .left hnewest rfl (fun hnext => ?_)
            (by simp only [Call.moves]; simp [hnewest, henters])
          by_contra hstate
          exact henters ⟨hnext, .inr hstate⟩
      · refine .departed (.inl ⟨caller, Ne.symm howner, rfl⟩) ?_
        simp only [Call.moves, if_pos hnewest, if_pos (show owner ≠ caller from howner),
          worked_over hgone, left_over hgone, ite_self]
    · exact .same (fun h => hnewest h.1) (by simp [Call.moves, hnewest])
  | adopt caller | depart caller =>
    by_cases hdeparts : newest ∧ owner ≠ caller
    · exact .departed (.inl ⟨caller, hdeparts.2.symm, rfl⟩) (if_pos hdeparts)
    · exact .same (by simp [Call.entersWorking]) (if_neg hdeparts)
  | abandonAll => exact .ended rfl rfl
  | abandonRunning caller =>
    by_cases hruns : newest ∧ owner = caller ∧ state.Live
    · exact .stopped hruns.2.2 (if_pos hruns)
    · exact .same (by simp [Call.entersWorking]) (if_neg hruns)
  | attachReport caller =>
    by_cases hnewest : newest
    · by_cases howner : owner = caller
      · exact .expired rfl rfl (by simp [Call.moves, hnewest, howner])
      · refine .departed (.inl ⟨caller, Ne.symm howner, rfl⟩) ?_
        simp [Call.moves, hnewest, howner, expired_over hgone]
    · exact .same (fun h => hnewest h.1) (if_neg hnewest)
  | settle target caller ended =>
    cases caller with
    | none =>
      have hover := state.ended_over ended
      exact .ended rfl (by simp [Call.moves, expired_over hover])
    | some caller =>
      by_cases hid : target = id
      · subst hid
        by_cases howner : owner = caller
        · exact .expired rfl rfl (by simp [Call.moves, howner])
        · refine .departed (.inr ⟨caller, ended, Ne.symm howner, rfl⟩) ?_
          simp [Call.moves, howner, expired_over hgone]
      · exact .same (by simp [Call.entersWorking]) (by simp [Call.moves, hid])
  | _ => exact .same (by simp [Call.entersWorking]) rfl

/-- A turn that is over stays as it is. -/
theorem Moved.over (h : Moved call now newest heard id owner state state') (hover : state.Over) :
    state' = state := by
  cases h with
  | same _ hstate => exact hstate
  | departed _ hstate => rcases hover with rfl | rfl <;> exact hstate
  | worked _ _ hstate => exact hstate.trans (worked_over hover)
  | left _ _ _ hstate => exact hstate.trans (left_over hover)
  | ended _ hstate => rcases hover with rfl | rfl <;> exact hstate
  | expired _ _ hstate => exact hstate.trans (expired_over hover)
  | stopped hlive _ => exact absurd hlive hover.not_live

variable {deadline : ℕ}

/-- A turn settles when it leaves `working` for idle. -/
theorem Moved.settling (h : Moved call now newest heard id owner state (.settling deadline)) :
    state = .settling deadline ∨ state = .opened ∧ ∃ metadata wallNanos window detectorObserved,
      call = .noteActivity owner (some .working) .idle metadata wallNanos window detectorObserved ∧
      deadline = now + window := by
  cases h with
  | same _ hstate => exact .inl hstate.symm
  | departed _ hstate => exact absurd hstate.symm state.departed_over.not_settling
  | worked _ _ hstate => exact .inl (worked_settling hstate.symm).1
  | left _ hcall _ hstate =>
    rcases left_settling hstate.symm with hsettling | ⟨hopened, rfl, rfl, hdeadline⟩
    · exact .inl hsettling
    · exact .inr ⟨hopened, _, _, _, _, hcall, hdeadline⟩
  | ended _ hstate => exact absurd hstate.symm (state.ended_over _).not_settling
  | expired _ _ hstate => exact .inl (expired_settling hstate.symm)
  | stopped _ hstate => cases hstate

/-- While the newest turn settles, a `working` within its window resumes it. -/
theorem Moved.quiet
    (h : Moved call now newest heard id owner (.settling deadline) (.settling deadline))
    (hnewest : newest) (hworking : call.entersWorking) : deadline ≤ now := by
  cases h with
  | same hsame _ => exact absurd ⟨hnewest, hworking⟩ hsame
  | departed _ hstate => cases hstate
  | worked _ _ hstate => exact (worked_settling hstate.symm).2
  | @left _ next _ _ _ _ _ hcall hopened _ =>
    subst hcall
    cases next <;> cases hworking
    cases hopened rfl
  | ended _ hstate => exact absurd hstate.symm (ended_over _ _).not_settling
  | expired hquiet _ _ => rw [hquiet] at hworking; cases hworking
  | stopped _ hstate => cases hstate

/-- A settling turn is closed when its window passed or its owner departs. -/
theorem Moved.closed (h : Moved call now newest heard id owner state .closed) :
    state = .closed ∨ ∃ deadline, state = .settling deadline ∧
    (deadline ≤ call.clock now ∨ call.Departs id owner) := by
  cases h with
  | same _ hstate => exact .inl hstate.symm
  | departed hdeparts hstate =>
    exact (departed_closed hstate.symm).imp_right fun ⟨deadline, h⟩ => ⟨deadline, h, .inr hdeparts⟩
  | worked _ hcall hstate =>
    subst hcall
    exact (worked_closed hstate.symm).imp_right fun ⟨deadline, h, hle⟩ => ⟨deadline, h, .inl hle⟩
  | left _ _ _ hstate => exact .inl (left_closed hstate.symm)
  | ended hends hstate =>
    refine (ended_closed hstate.symm).imp_right fun ⟨deadline, h, hle⟩ => ⟨deadline, h, .inl ?_⟩
    rwa [Call.clock, hends]
  | expired _ hclock hstate =>
    exact (expired_closed hstate.symm).imp_right fun ⟨deadline, h, hle⟩ =>
      ⟨deadline, h, .inl (by rwa [hclock])⟩
  | stopped _ hstate => cases hstate

/-- A paused turn stays paused, resumes, or is abandoned. -/
theorem Moved.paused (h : Moved call now newest heard id owner .paused state') :
    state' = .paused ∨ state' = .opened ∨ state' = .abandoned := by
  cases h with
  | same _ hstate => exact .inl hstate
  | departed _ hstate => exact .inr (.inr hstate)
  | worked _ _ hstate =>
    rw [TurnState.worked] at hstate
    split at hstate
    · exact .inr (.inl hstate)
    · split at hstate
      · exact .inr (.inr hstate)
      · exact .inl hstate
  | left _ _ _ hstate =>
    unfold TurnState.left at hstate
    split at hstate <;> simp_all
  | ended _ hstate => exact .inr (.inr hstate)
  | expired _ _ hstate => exact .inl hstate
  | stopped _ hstate => exact .inr (.inr hstate)

/-- A paused turn whose session goes idle is abandoned. -/
theorem moves_idle [Decidable newest] {caller : TurnOwner} {metadata : Metadata}
    {wallNanos window : ℕ} {detectorObserved : Bool} (hnewest : newest) :
    (Call.noteActivity caller
    (some .blocked) .idle metadata wallNanos window detectorObserved).moves now newest heard id
      owner .paused = .abandoned := by
  by_cases howner : owner = caller
  · simp [Call.moves, hnewest, howner, left]
  · simp [Call.moves, hnewest, howner, left, departed]

/-- A running turn whose owner departs is abandoned. -/
theorem moves_departs [Decidable newest] (hnewest : newest) (hlive : state.Live)
    (h : call.Departs id owner) : call.moves now newest heard id owner state = .abandoned := by
  have hgone : state.departed = .abandoned := by rcases hlive with rfl | rfl <;> rfl
  have hover : abandoned.Over := .inr rfl
  rcases h with ⟨other, hother, hcaller⟩ | ⟨other, ended, hother, rfl⟩
  · cases call <;> cases hcaller <;>
      simp [Call.moves, hnewest, hother.symm, hgone, worked_over hover, left_over hover,
        expired_over hover]
  · simp [Call.moves, hother.symm, hgone, expired_over hover]

/-- The end of the session ends every turn. -/
theorem moves_ended [Decidable newest] {time : ℕ} (h : call.endsSession now = some time) :
    call.moves now newest heard id owner state = state.ended time := by
  have hover := state.ended_over time
  cases call with
  | abandonAll =>
    cases h
    rfl
  | settle target caller ended =>
    cases caller with
    | none =>
      cases h
      simp [Call.moves, expired_over hover]
    | some caller => cases h
  | _ => cases h

end Moves

variable {progress : TurnProgress} {id : ℕ}

/-- A turn that is not new, traced back through a call. -/
theorem after_moved {now : ℕ} {call : Call} {record' : TurnRecord}
    (hget : (progress.after now call).table.records.get id = some record')
    (hold : id ≤ progress.table.nextId ∨ record'.state ≠ .opened) :
    ∃ record heard, progress.table.records.get id = some record ∧
      record'.state = call.moves now
      (progress.table.newest = some id) heard id record.owner record.state ∧
      Moved call now (progress.table.newest = some id) heard id record.owner record.state
      record'.state := by
  rcases after_turn hget with ⟨record, heard, hrecord, -, hstate⟩ | ⟨hnew, -, -, hopened⟩
  · exact ⟨record, heard, hrecord, hstate, hstate ▸ moves_moved ..⟩
  · rcases hold with hknown | hstate
    · omega
    · exact absurd hopened hstate

theorem nextId_le_after (progress : TurnProgress) (now : ℕ) (call : Call) :
    progress.table.nextId ≤ (progress.after now call).table.nextId := by
  rcases after_newest progress now call with ⟨hnext, -⟩ | ⟨hnext, -⟩ <;> omega

/-! ### Runs -/

/-- The progress of the session, the clock, and the call made. -/
structure Moment where
  progress : TurnProgress
  now : ℕ
  call : Call

namespace Moment

def after (m : Moment) : TurnProgress := m.progress.after m.now m.call

variable (m : Moment) (id : TurnId)

def turn : Option TurnRecord := m.progress.table.records.get id

/-- `settle` answers that the turn is to be reported. -/
def Surfaces : Prop :=
  ∃ owner ended snapshot, m.call = .settle id owner ended ∧
    (m.progress.settle m.now ended id owner).2 = .surface snapshot

/-- The open turn leaves `working` for `next`; its window is up to `deadline`. -/
def Leaves (next : AgentActivity) (deadline : ℕ) : Prop :=
  ∃ record metadata wallNanos window detectorObserved, m.turn id = some record ∧
    record.state = .opened ∧ m.call = .noteActivity record.owner
    (some .working) next metadata wallNanos window detectorObserved ∧ deadline = m.now + window

/-- Another owner or a later turn takes over while the turn is settling. -/
def TakesOver : Prop :=
  ∃ record deadline, m.turn id = some record ∧ record.state = .settling deadline ∧
    (m.call.Departs id record.owner ∨ ∃ later, id < later ∧ m.after.table.newest = some later)

end Moment

def Step (progress : TurnProgress) (m : Moment) (progress' : TurnProgress) : Prop :=
  m.progress = progress ∧ progress' = m.after

variable {tr : List Moment}

theorem wellFormed_run (h : Run Step .new tr progress) :
    progress.table.WellFormed := by
  refine Run.invariant wellFormed_new (fun hwf hstep => ?_) h
  obtain ⟨rfl, rfl⟩ := hstep
  exact wellFormed_after hwf

/-! ### What the history of a turn tells -/

/-- The session did not enter `working` before the deadline. -/
def Undisturbed (deadline : ℕ) (moments : List Moment) : Prop :=
  ∀ m ∈ moments, m.call.entersWorking → deadline ≤ m.now

/-- Undisturbed until the window passed or the turn was taken over. -/
def Released (id : TurnId) (deadline : ℕ) (moments : List Moment) : Prop :=
  ∃ quiet release rest, moments = quiet ++ release :: rest ∧ Undisturbed deadline quiet ∧
    (deadline ≤ release.call.clock release.now ∨ release.TakesOver id)

/-- The turn left `working` for idle, and was not open again in the moments
`since`. -/
def LeftForIdle (tr : List Moment) (id : TurnId) (deadline : ℕ) (since : List Moment) : Prop :=
  ∃ before leave, tr = before ++ leave :: since ∧ leave.Leaves id .idle deadline ∧
    ∀ m ∈ since, ∀ record, m.turn id = some record → record.state ≠ .opened

variable {deadline : ℕ} {id : TurnId}

theorem Released.snoc {moments : List Moment} (h : Released id deadline moments)
    (m : Moment) : Released id deadline (moments ++ [m]) := by
  obtain ⟨quiet, release, rest, rfl, hquiet, hcause⟩ := h
  exact ⟨quiet, release, rest ++ [m], by simp, hquiet, hcause⟩

variable {m : Moment}

theorem Undisturbed.released {moments : List Moment}
    (h : Undisturbed deadline moments) (hcause : deadline ≤ m.call.clock m.now ∨ m.TakesOver id) :
    Released id deadline (moments ++ [m]) :=
  ⟨moments, m, [], rfl, h, hcause⟩

theorem LeftForIdle.snoc {tr since : List Moment} {record : TurnRecord}
    (h : LeftForIdle tr id deadline since) (hturn : m.turn id = some record)
    (hstate : record.state ≠ .opened) : LeftForIdle (tr ++ [m]) id deadline (since ++ [m]) := by
  obtain ⟨before, leave, rfl, hleave, hsince⟩ := h
  refine ⟨before, leave, by simp, hleave, List.forall_mem_snoc hsince fun other hother => ?_⟩
  rwa [Option.some.inj (hother.symm.trans hturn)]

/-- What is told of the turns of a session by its history. -/
structure Told (tr : List Moment) (progress : TurnProgress) : Prop where
  settling : ∀ id record deadline, progress.table.records.get id = some record →
    record.state = .settling deadline → ∃ since, LeftForIdle tr id deadline since ∧
      (Undisturbed deadline since ∧ progress.table.newest = some id ∨ Released id deadline since)
  closed : ∀ id record, progress.table.records.get id = some record → record.state = .closed →
    ∃ deadline since, LeftForIdle tr id deadline since ∧ Released id deadline since

section Told

variable {tr : List Moment} {m : Moment} {id : TurnId} {record' : TurnRecord}

/-- A leave for another activity than `working` opens no turn. -/
theorem leave_newest {next : AgentActivity} {deadline : ℕ} (h : m.Leaves id next deadline)
    (hnext : next ≠ .working) : m.after.table.newest = m.progress.table.newest := by
  obtain ⟨record, metadata, wallNanos, window, detectorObserved, -, -, hcall, -⟩ := h
  obtain ⟨table, heard, hedits, heffect⟩ := after_edits m.progress m.now m.call
  rw [← hedits.follows.newest]
  rcases heffect.newest with ⟨-, hsame⟩ | ⟨-, -, -, henters | ⟨owner, hadopts⟩⟩
  · exact hsame
  · rw [hcall] at henters
    cases next <;> first | exact absurd rfl hnext | cases henters
  · cases hcall.symm.trans hadopts

theorem told_settling (hwf : m.progress.table.WellFormed) (h : Told tr m.progress) {deadline : ℕ}
    (hget : m.after.table.records.get id = some record')
    (hsettling : record'.state = .settling deadline) :
    ∃ since, LeftForIdle (tr ++ [m]) id deadline since ∧
      (Undisturbed deadline since ∧ m.after.table.newest = some id ∨
      Released id deadline since) := by
  obtain ⟨record, heard, hrecord, -, hmoved⟩ := after_moved hget (.inr (by simp [hsettling]))
  rw [hsettling] at hmoved
  rcases hmoved.settling with hwas | ⟨hwas, metadata, wallNanos, window, detectorObserved,
    hcall, hdeadline⟩
  · obtain ⟨since, hleft, hsince⟩ := h.settling id record deadline hrecord hwas
    refine ⟨since ++ [m], hleft.snoc hrecord (by simp [hwas]), ?_⟩
    rcases hsince with ⟨hquiet, hnewest⟩ | hreleased
    · rcases after_newest m.progress m.now m.call with ⟨-, hsame⟩ | ⟨-, hlater⟩
      · refine .inl ⟨fun m' hm' hworking => ?_, hsame.trans hnewest⟩
        rcases List.mem_append.mp hm' with hm' | hm'
        · exact hquiet m' hm' hworking
        · rw [List.mem_singleton.mp hm'] at hworking ⊢
          rw [hwas] at hmoved
          exact hmoved.quiet hnewest hworking
      · -- a later turn opens while this one is settling
        have hnumber := hwf.numbered id record hrecord
        exact .inr (hquiet.released
          (.inr ⟨record, deadline, hrecord, hwas, .inr ⟨_, Nat.lt_succ_of_le hnumber, hlater⟩⟩))
    · exact .inr (hreleased.snoc m)
  · have hleaves : m.Leaves id .idle deadline :=
      ⟨record, metadata, wallNanos, window, detectorObserved, hrecord, hwas, hcall, hdeadline⟩
    refine ⟨[], ⟨tr, m, rfl, hleaves, by simp⟩, .inl ⟨by simp [Undisturbed], ?_⟩⟩
    rw [leave_newest hleaves (by simp)]
    exact hwf.newestRuns id record hrecord (.inl hwas)

theorem told_closed (h : Told tr m.progress) (hget : m.after.table.records.get id = some record')
    (hclosed : record'.state = .closed) :
    ∃ deadline since, LeftForIdle (tr ++ [m]) id deadline since ∧ Released id deadline since := by
  obtain ⟨record, heard, hrecord, -, hmoved⟩ := after_moved hget (.inr (by simp [hclosed]))
  rw [hclosed] at hmoved
  rcases hmoved.closed with hwas | ⟨deadline, hwas, hcause⟩
  · obtain ⟨deadline, since, hleft, hreleased⟩ := h.closed id record hrecord hwas
    exact ⟨deadline, since ++ [m], hleft.snoc hrecord (by simp [hwas]), hreleased.snoc m⟩
  · obtain ⟨since, hleft, hsince⟩ := h.settling id record deadline hrecord hwas
    refine ⟨deadline, since ++ [m], hleft.snoc hrecord (by simp [hwas]), ?_⟩
    rcases hsince with ⟨hquiet, -⟩ | hreleased
    · exact hquiet.released
        (hcause.imp_right fun hdeparts => ⟨record, deadline, hrecord, hwas, .inl hdeparts⟩)
    · exact hreleased.snoc m

theorem told_run {progress : TurnProgress} (h : Run Step .new tr progress) : Told tr progress := by
  refine Run.history ⟨by simp [new, TurnTable.new], by simp [new, TurnTable.new]⟩
    (fun {tr t m u} hrun htold hstep => ?_) h
  obtain ⟨rfl, rfl⟩ := hstep
  exact ⟨fun _ _ _ hget hsettling => told_settling (wellFormed_run hrun) htold hget hsettling,
    fun _ _ hget hclosed => told_closed htold hget hclosed⟩

end Told

/-! ### Turns that are over -/

section Over

variable {m : Moment} {id : TurnId} {state : TurnState}

/-- A surfaced turn is closed, and has the start that was surfaced. -/
theorem settle_surface {snapshot : TurnSnapshot} {owner : Option TurnOwner} {ended : ℕ}
    (hcall : m.call = .settle id owner ended)
    (hsurface : (m.progress.settle m.now ended id owner).2 = .surface snapshot) :
    ∃ record', m.after.table.records.get id = some record' ∧ record'.state = .closed ∧
      record'.startedNanos = snapshot.startedNanos := by
  rw [Moment.after, hcall, TurnProgress.after]
  simp only [settle] at hsurface ⊢
  split at hsurface
  · cases hsurface
  · rename_i record hrecord
    refine ⟨record.expire m.now, ?_, ?_⟩
    · rw [TurnTable.change, (TurnTable.giveBack_fields _).1, OrderedMap.get_modify_self, hrecord]
      rfl
    · split at hsurface
      · cases hsurface
      · cases hsurface
      · cases hsurface
      · rename_i hstate
        split at hsurface
        · cases hsurface
        · rename_i hpassed
          cases hsurface
          simp [TurnRecord.expire, hstate, hpassed, TurnRecord.snapshot]
      · rename_i hstate
        cases hsurface
        simp [TurnRecord.expire, hstate, TurnRecord.snapshot]

theorem Moment.Surfaces.closed (h : m.Surfaces id) :
    ∃ record', m.after.table.records.get id = some record' ∧ record'.state = .closed := by
  obtain ⟨owner, ended, snapshot, hcall, hsurface⟩ := h
  obtain ⟨record', hget, hclosed, -⟩ := settle_surface hcall hsurface
  exact ⟨record', hget, hclosed⟩

/-- The turn `id` has been opened, and as long as it is known it is in `state`. -/
def Rests (progress : TurnProgress) (id : ℕ) (state : TurnState) : Prop :=
  id ≤ progress.table.nextId ∧ ∀ record, progress.table.records.get id = some record →
    record.state = state

theorem rests_after {progress : TurnProgress} {now : ℕ} {call : Call} {id : ℕ}
    (h : Rests progress id state) (hover : state.Over) :
    Rests (progress.after now call) id state := by
  refine ⟨h.1.trans (nextId_le_after ..), fun record' hget => ?_⟩
  obtain ⟨record, heard, hrecord, -, hmoved⟩ := after_moved hget (.inl h.1)
  have hwas := h.2 record hrecord
  exact (hmoved.over (hwas ▸ hover)).trans hwas

/-- What a turn that is over is after a moment, it is at every later one. -/
theorem rests_run {id : ℕ} {progress progress' : TurnProgress} (hover : state.Over)
    (h : Run Step progress tr progress') (hrests : Rests progress id state) :
    Rests progress' id state ∧ ∀ m ∈ tr, Rests m.progress id state ∧ Rests m.after id state := by
  refine Run.history ⟨hrests, by simp⟩ (fun {tr t m u} _ ih hstep => ?_) h
  obtain ⟨rfl, rfl⟩ := hstep
  exact ⟨rests_after ih.1 hover, List.forall_mem_snoc ih.2 ⟨ih.1, rests_after ih.1 hover⟩⟩

/-- A turn that is abandoned after a moment is surfaced neither then nor later. -/
theorem abandoned_never_surfaces {id : ℕ} {progress' : TurnProgress}
    (h : Run Step m.after tr progress') (hrests : Rests m.after id .abandoned) :
    ∀ m' ∈ m :: tr, ¬m'.Surfaces id := by
  intro m' hm' hsurfaces
  obtain ⟨record', hget, hclosed⟩ := hsurfaces.closed
  have hafter : Rests m'.after id .abandoned := by
    rcases List.mem_cons.mp hm' with rfl | hm'
    · exact hrests
    · exact ((rests_run (.inr rfl) h hrests).2 m' hm').2
  rw [hafter.2 record' hget] at hclosed
  cases hclosed

/-- A turn every record of which is moved to abandoned is abandoned. -/
theorem rests_of_moves {record : TurnRecord} (hwf : m.progress.table.WellFormed)
    (hturn : m.turn id = some record)
    (h : ∀ heard, m.call.moves m.now
    (m.progress.table.newest = some id) heard id record.owner record.state = state) :
    Rests m.after id state := by
  have hnumber := hwf.numbered id record hturn
  refine ⟨hnumber.trans (nextId_le_after ..), fun record' hget => ?_⟩
  obtain ⟨other, heard, hother, hstate, -⟩ := after_moved hget (.inl hnumber)
  rw [hstate, Option.some.inj (hother.symm.trans hturn), h]

end Over

/-! ### The report of a turn -/

theorem run_at {earlier later : List Moment} (h : Run Step .new (earlier ++ m :: later) progress) :
    Run Step .new earlier m.progress ∧ Run Step m.after later progress := by
  obtain ⟨t, hearlier, hrest⟩ := h.split
  obtain ⟨u, ⟨rfl, rfl⟩, hlater⟩ := hrest.cons_inv
  exact ⟨hearlier, hlater⟩

/-- The turn `id`, as long as it is known, is paused or abandoned. -/
def Dormant (progress : TurnProgress) (id : ℕ) : Prop :=
  id ≤ progress.table.nextId ∧ ∀ record, progress.table.records.get id = some record →
    record.state = .paused ∨ record.state = .abandoned

theorem dormant_after {now : ℕ} {call : Call} (h : Dormant progress id)
    (hnot : ∀ record, (progress.after now call).table.records.get id = some record →
      record.state ≠ .opened) : Dormant (progress.after now call) id := by
  refine ⟨h.1.trans (nextId_le_after ..), fun record' hget => ?_⟩
  obtain ⟨record, heard, hrecord, -, hmoved⟩ := after_moved hget (.inl h.1)
  rcases h.2 record hrecord with hwas | hwas
  · rw [hwas] at hmoved
    rcases hmoved.paused with hpaused | hopened | habandoned
    · exact .inl hpaused
    · exact absurd hopened (hnot record' hget)
    · exact .inr habandoned
  · exact .inr ((hmoved.over (.inr hwas)).trans hwas)

/-- After a leave for `blocked` the turn is dormant until it is open again. -/
theorem dormant_since {since : List Moment} {leave : Moment}
    (hwf : leave.progress.table.WellFormed) (hleave : leave.Leaves id .blocked deadline)
    (h : Run Step leave.after since progress) :
    (∀ m ∈ since, ∀ record, m.turn id = some record → record.state ≠ .opened) →
    (∀ record, progress.table.records.get id = some record → record.state ≠ .opened) →
    Dormant progress id := by
  refine Run.history (fun _ _ => ?_) (fun {since t m u} _ ih hstep hsince hnow => ?_) h
  · obtain ⟨record, metadata, wallNanos, window, detectorObserved, hturn, hopened, hcall, -⟩ :=
      hleave
    have hnewest := hwf.newestRuns id record hturn (.inl hopened)
    have hrests : Rests leave.after id .paused := by
      refine rests_of_moves hwf hturn fun heard => ?_
      rw [hcall, hopened]
      simp [Call.moves, hnewest, left]
    exact ⟨hrests.1, fun record' hget => .inl (hrests.2 record' hget)⟩
  · obtain ⟨rfl, rfl⟩ := hstep
    have hbefore := ih (fun m' hm' => hsince m' (List.mem_append_left _ hm')) (hsince m (by simp))
    exact dormant_after hbefore hnow

/-- A dormant turn whose session goes idle is abandoned. -/
theorem dormant_idle (hwf : m.progress.table.WellFormed) (h : Dormant m.progress id)
    (hidle : m.call.goesIdle) : Rests m.after id .abandoned := by
  refine ⟨h.1.trans (nextId_le_after ..), fun record' hget => ?_⟩
  obtain ⟨record, heard, hrecord, hstate, hmoved⟩ := after_moved hget (.inl h.1)
  rcases h.2 record hrecord with hpaused | habandoned
  · have hnewest := hwf.newestRuns id record hrecord (.inr hpaused)
    obtain ⟨caller, metadata, wallNanos, window, detectorObserved, hcall⟩ :=
      Call.goesIdle_iff.mp hidle
    rw [hstate, hpaused, hcall]
    exact moves_idle hnewest
  · exact (hmoved.over (.inr habandoned)).trans habandoned

/-- **Turn reporting.** A turn that is closed or abandoned stays so. A turn that
`settle` surfaces left `working` for idle and was not open again, and until its
window passed or it was taken over the session did not enter `working`. A
turn that left `working` for `blocked` and then went idle, one whose owner
departed while it was open or paused, and one that was running or within its
window when the session ended are never surfaced. -/
theorem turn_reporting {tr : List Moment} {progress : TurnProgress}
    (h : Run Step .new tr progress) :
    (∀ (earlier later : List Moment) m id record, tr = earlier ++ m :: later →
      m.turn id = some record → record.state.Over →
      (∀ m' ∈ later, ∀ record', m'.turn id = some record' → record'.state = record.state) ∧
      ∀ record', progress.table.records.get id = some record' → record'.state = record.state) ∧
    (∀ (earlier later : List Moment) m id, tr = earlier ++ m :: later → m.Surfaces id →
    ∃ deadline since, LeftForIdle (earlier ++ [m]) id deadline since ∧ Released id deadline since) ∧
    (∀ (earlier since later : List Moment) leave m id deadline,
      tr = earlier ++ leave :: (since ++ m :: later) →
      leave.Leaves id .blocked deadline →
      (∀ m' ∈ since ++ [m], ∀ record, m'.turn id = some record → record.state ≠ .opened) →
      m.call.goesIdle → ∀ m' ∈ m :: later, ¬m'.Surfaces id) ∧
    (∀ (earlier later : List Moment) m id record, tr = earlier ++ m :: later →
      m.turn id = some record →
      record.state.Live → m.call.Departs id record.owner → ∀ m' ∈ m :: later, ¬m'.Surfaces id) ∧
    (∀ (earlier later : List Moment) m id record time, tr = earlier ++ m :: later →
      m.turn id = some record → m.call.endsSession m.now = some time →
      (record.state.Live ∨ ∃ deadline, record.state = .settling deadline ∧ time < deadline) →
      ∀ m' ∈ m :: later, ¬m'.Surfaces id) := by
  refine ⟨?_, ?_, ?_, ?_, ?_⟩
  · rintro earlier later m id record rfl hturn hover
    obtain ⟨hearlier, hlater⟩ := run_at h
    have hrests : Rests m.after id record.state :=
      rests_of_moves (wellFormed_run hearlier) hturn fun heard => (moves_moved ..).over hover
    obtain ⟨hlast, hmoments⟩ := rests_run hover hlater hrests
    exact ⟨fun m' hm' => (hmoments m' hm').1.2, hlast.2⟩
  · rintro earlier later m id rfl hsurfaces
    obtain ⟨hearlier, -⟩ := run_at h
    obtain ⟨record', hget, hclosed⟩ := hsurfaces.closed
    exact (told_run (hearlier.snoc ⟨rfl, rfl⟩)).closed id record' hget hclosed
  · rintro earlier since later leave m id deadline rfl hleave hsince hidle
    obtain ⟨hearlier, hrest⟩ := run_at h
    obtain ⟨t, hbetween, hm⟩ := hrest.split
    obtain ⟨u, ⟨rfl, rfl⟩, hlater⟩ := hm.cons_inv
    have hdormant : Dormant m.progress id :=
      dormant_since (wellFormed_run hearlier) hleave hbetween
        (fun m' hm' => hsince m' (List.mem_append_left _ hm')) (hsince m (by simp))
    have hwf := wellFormed_run ((hearlier.snoc ⟨rfl, rfl⟩).append hbetween)
    exact abandoned_never_surfaces hlater (dormant_idle hwf hdormant hidle)
  · rintro earlier later m id record rfl hturn hlive hdeparts
    obtain ⟨hearlier, hlater⟩ := run_at h
    have hwf := wellFormed_run hearlier
    refine abandoned_never_surfaces hlater (rests_of_moves hwf hturn fun heard => ?_)
    exact moves_departs (hwf.newestRuns id record hturn hlive) hlive hdeparts
  · rintro earlier later m id record time rfl hturn hends hstate
    obtain ⟨hearlier, hlater⟩ := run_at h
    refine abandoned_never_surfaces hlater
      (rests_of_moves (wellFormed_run hearlier) hturn fun heard => ?_)
    rw [moves_ended hends]
    rcases hstate with (hstate | hstate) | ⟨deadline, hstate, htime⟩
    · rw [hstate]
      rfl
    · rw [hstate]
      rfl
    · rw [hstate, ended, if_neg (Nat.not_le.mpr htime)]

/-! ### Two runs -/

namespace Sample

/-- The moments of calls made one after the other. -/
def moments (progress : TurnProgress) : List (ℕ × Call) → List Moment
  | [] => []
  | (now, call) :: calls => ⟨progress, now, call⟩ :: moments (progress.after now call) calls

theorem moments_run : ∀ (calls : List (ℕ × Call)) (progress : TurnProgress),
    ∃ last, Run Step progress (moments progress calls) last
  | [], progress => ⟨progress, .refl _⟩
  | (now, call) :: calls, progress =>
    let ⟨last, h⟩ := moments_run calls (progress.after now call)
    ⟨last, .cons ⟨rfl, rfl⟩ h⟩

def agent (n : ℕ) : TurnOwner := ⟨1, n⟩

/-- A turn of the first agent, idle at 20 with a window up to 120. -/
def turn : List (ℕ × Call) :=
  [(10, .noteActivity (agent 1) none .working [] 5 100 false),
    (20, .noteActivity (agent 1) (some .working) .idle [] 6 100 false)]

/-- Its window passes and it is settled. -/
def settled : List (ℕ × Call) := turn ++ [(130, .settle 1 (some (agent 1)) 130)]

/-- Another agent takes over, the session ends, and the turn is settled, all
within its window. -/
def overtaken : List (ℕ × Call) :=
  turn ++ [(30, .depart (agent 2)), (40, .abandonAll), (50, .settle 1 none 50)]

end Sample

open Sample in
theorem turn_reporting_settled : ∃ (earlier : List Moment) (m : Moment), m.Surfaces 1 ∧
    earlier ++ [m] = moments .new settled ∧
    ∃ deadline since, LeftForIdle (earlier ++ [m]) 1 deadline since ∧
    Released 1 deadline since := by
  obtain ⟨last, hrun⟩ := moments_run settled .new
  have hsurfaces : ((moments .new settled).get ⟨2, by decide⟩).Surfaces 1 :=
    ⟨some (agent 1), 130, ⟨some 5, some 10, [], false, false⟩, rfl, by decide +kernel⟩
  exact ⟨_, _, hsurfaces, rfl,
    (turn_reporting hrun).2.1 ((moments .new settled).take 2) [] _ 1 rfl hsurfaces⟩

/-- **One turn runs at a time**, and it is the newest, after any calls. -/
theorem one_live_turn {tr : List Moment} {progress : TurnProgress} (h : Run Step .new tr progress)
    {id id' : ℕ} {record record' : TurnRecord} (hget : progress.table.records.get id = some record)
    (hget' : progress.table.records.get id' = some record') (hlive : record.state.Live)
    (hlive' : record'.state.Live) : id = id' ∧ progress.table.newest = some id := by
  have hwf := wellFormed_run h
  have hnewest := hwf.newestRuns id record hget hlive
  exact ⟨Option.some.inj (hnewest.symm.trans (hwf.newestRuns id' record' hget' hlive')), hnewest⟩

open Sample in
/-- The second agent's turn ends the first one's. -/
theorem one_live_turn_working : ∃ tr progress, Run Step .new tr progress ∧
    (progress.table.records.get 1).map (·.state) = some .closed ∧
    progress.table.newest = some 2 := by
  let second : List (ℕ × Call) :=
    turn ++ [(30, .noteActivity (agent 2) none .working [] 7 100 false)]
  have hrun : Run Step .new (moments .new second) _ :=
    .cons ⟨rfl, rfl⟩ (.cons ⟨rfl, rfl⟩ (.single ⟨rfl, rfl⟩))
  exact ⟨_, _, hrun, rfl, (@one_live_turn _ _ hrun 2 2 _ _ rfl rfl (.inl rfl) (.inl rfl)).2⟩

open Sample in
/-- A turn is surfaced although its session ended before its window passed:
another owner had taken over before. -/
theorem ended_session_surfaces :
    ∃ (tr earlier between : List Moment) (leave ended surface : Moment) (last : TurnProgress)
      (deadline time : ℕ),
    Run Step .new tr last ∧ tr = earlier ++ leave :: (between ++ [ended, surface]) ∧
    leave.Leaves 1 .idle deadline ∧
    ended.call.endsSession ended.now = some time ∧ time < deadline ∧ surface.Surfaces 1 := by
  obtain ⟨last, hrun⟩ := moments_run overtaken .new
  let tr := moments .new overtaken
  refine ⟨tr, tr.take 1, (tr.drop 2).take 1, tr.get ⟨1, by decide⟩, tr.get ⟨3, by decide⟩,
    tr.get ⟨4, by decide⟩, last,
    120, 40, hrun, rfl, ?_, rfl, by decide, none, 50, ⟨some 5, some 10, [], false, false⟩,
    rfl, by decide +kernel⟩
  exact ⟨_, [], 6, 100, false, rfl, rfl, rfl, rfl⟩

end Pohunek.Turns
