/-
# A client that waits turn after turn

The results of a client that calls `wait_turn` again and again form a chain:
each call starts at the position of the cursor the last one returned. The
invariant is `Sound`: a result that is not a reset was decided on a journal
that had lost nothing after the position of the call, and what is selected
between that position and the one of its cursor is the event it returned, or
nothing. Along a chain without a reset the stretches add up, so the events
returned are those of the log.
-/
import Pohunek.Turns.Wait

namespace Pohunek.Turns

open Runs Stretch List

variable {setup : Setup}

/-! ### What one step can do -/

namespace Phase

/-- The position a call waits at, or was decided at. -/
def after : Phase → Option ℕ
  | reading position _ _ _ | acquiring position | parked position => some position.seq
  | reporting decision _ _ => decision.after
  | _ => none

def decision : Phase → Option Decision
  | reporting decision _ _ => some decision
  | _ => none

end Phase

/-- The steps of the world. -/
inductive Happened (setup : Setup) (w : World) (action : Action) (w' : World) : Prop
  /-- The daemon went on. -/
  | daemon (new : List TurnEntry) (hlog : w'.log = w.log ++ new)
      (hjournal : w.journal.Of setup.capacity w.log → w'.journal.Of setup.capacity w'.log)
        (hphase : w'.phase = w.phase)
      (hcursor : w'.cursor = w.cursor) (hcalls : w'.calls = w.calls) (hanswers : w'.answers = w.answers)
  /-- A call begins, goes on or fails. -/
  | moved (phase : Phase) (calls : ℕ) (hw : w' = { w with phase := phase, calls := calls })
      (hphase : phase.after = none ∧ phase.decision = none ∨
        phase.after = w.phase.after ∧ phase.decision = w.phase.decision ∧ calls = w.calls)
      (hreading : ∀ position check rest allTerminal, phase ≠ .reading position check rest allTerminal)
  /-- A parked wait looks again. -/
  | looked (position : CursorPosition) (check : Check) (hw : w' = w.checking setup position check)
      (hafter : w.phase.after = some position.seq)
  /-- The state of a target is read. -/
  | read (position : CursorPosition) (check : Check) (id : SessionId)
      (rest : List SessionId) (allTerminal : Bool)
      (info : SessionInfo) (hread : action = .read)
        (hphase : w.phase = .reading position check (id :: rest) allTerminal)
      (hinfo : w.sessions id = some info)
      (hw : w' = { w with phase := .reading position check rest (allTerminal && info.state.isTerminal) })
  | placed (position : CursorPosition) (hw : w' = w.checking setup position .first)
      (hplaced : w.cursor = none ∧ position.seq = w.journal.latest ∨
        ∃ cursor, w.cursor = some cursor ∧ w.journal.place setup.epoch cursor = some position)
  | unplaced (callNanos : ℕ)
      (hw : w' = w.decided setup ⟨.cursorReset, none, w.journal.latest⟩ callNanos none)
  | scanned (position : CursorPosition) (check : Check) (allTerminal : Bool) (verdict : Verdict)
      (hscan : action = .scan) (hphase : w.phase = .reading position check [] allTerminal)
      (hw : w' = w.decided setup verdict position.issuedNanos (some position.seq))
      (hverdict : turnOutcomeResult setup w.journal position.seq allTerminal (check = .deadline) =
        some verdict)
  | finished (decision : Decision) (progress : List SessionTurnProgress) (issued : ℕ)
      (hphase : w.phase = .reporting decision [] progress) (hissued : issued ≤ u64Max)
      (hw : w' = w.finished setup decision progress issued)

variable {action : Action}

theorem World.fail_moved (w : World) : Happened setup w action w.fail :=
  .moved .ready w.calls rfl (.inl ⟨rfl, rfl⟩) nofun

variable {w : World} {w' : World}

theorem World.next_happened (h : w.next setup action = some w') :
    Happened setup w action w' := by
  revert h
  fun_cases w.next setup action with
  | case1 =>
    intro h
    obtain ⟨journal, happend, rfl⟩ := Option.map_eq_some_iff.mp h
    exact .daemon [_] rfl (fun hof => hof.append rfl happend) rfl rfl rfl rfl
  | case2 =>
    intro h
    obtain ⟨journal, hobserve, rfl⟩ := Option.map_eq_some_iff.mp h
    exact .daemon _ rfl (fun hof => hof.observeState hobserve) rfl rfl rfl rfl
  | case3 => rintro ⟨⟩; exact .daemon [] (append_nil _).symm (fun hof => hof) rfl rfl rfl rfl
  | case4 | case5 => rintro ⟨⟩; exact .daemon [] (append_nil _).symm (fun hof =>
    hof.congr rfl rfl) rfl rfl rfl rfl
  | case6 => rintro ⟨⟩; exact .moved _ _ rfl (.inl ⟨rfl, rfl⟩) nofun
  | case8 =>
    rintro ⟨⟩
    rw [World.inspect]
    split
    · exact .moved _ w.calls rfl (.inl ⟨rfl, rfl⟩) nofun
    · exact w.fail_moved
  | case10 _ _ hcursor => rintro ⟨⟩; exact .placed _ rfl (.inl ⟨hcursor, rfl⟩)
  | case11 _ _ cursor hcursor _ hplace => rintro ⟨⟩; exact .placed _ rfl (.inr ⟨cursor, hcursor, hplace⟩)
  | case12 => rintro ⟨⟩; exact .moved _ w.calls rfl (.inl ⟨rfl, rfl⟩) nofun
  | case14 => rintro ⟨⟩; exact .unplaced _ rfl
  | case16 _ _ _ _ _ hphase =>
    rintro ⟨⟩
    rw [World.inspect]
    split
    · rename_i hinfo
      exact .read _ _ _ _ _ _ rfl hphase hinfo rfl
    · exact w.fail_moved
  | case18 _ _ _ hphase _ hverdict => rintro ⟨⟩; exact .scanned _ _ _ _ rfl hphase rfl hverdict
  | case19 _ check _ hphase =>
    rintro ⟨⟩
    refine .moved _ w.calls rfl (.inr ?_) ?_
    · by_cases hcheck : check = .first <;> simp [hcheck, hphase, Phase.after, Phase.decision]
    · by_cases hcheck : check = .first <;> simp [hcheck]
  | case21 granted _ hphase =>
    cases granted with
    | true => rintro ⟨⟩; exact .moved _ w.calls rfl (.inr
      (by simp [hphase, Phase.after, Phase.decision])) nofun
    | false => rintro ⟨⟩; exact w.fail_moved
  | case23 _ hphase | case25 _ hphase => rintro ⟨⟩; exact .looked _ _ rfl (by rw [hphase]; rfl)
  | case27 => rintro ⟨⟩; exact w.fail_moved
  | case29 _ _ _ _ hphase =>
    rintro ⟨⟩
    rw [World.inspect]
    split
    · exact .moved _ w.calls rfl (.inr (by simp [hphase, Phase.after, Phase.decision])) nofun
    · exact w.fail_moved
  | case31 _ _ _ hphase hissued => rintro ⟨⟩; exact .finished _ _ _ hphase hissued rfl
  | _ => rintro ⟨⟩

/-! ### Sound decisions -/

/-- What a decision says of the log: its journal is one of the log's, and if it
is no reset, nothing after the position of the call was lost and what is
selected up to its cursor is its event. -/
structure Sound (setup : Setup) (log : List TurnEntry) (decision : Decision) : Prop where
  journal : decision.journal.Of setup.capacity (log.take decision.journal.latest)
  latest : decision.journal.latest ≤ log.length
  cursor : decision.verdict.cursorSeq ≤ decision.journal.latest
  placed : decision.verdict.reason ≠ .cursorReset → ∃ p, decision.after = some p ∧
    p ≤ decision.verdict.cursorSeq ∧ decision.journal.evictedAfter p = false ∧
    (log.extract p decision.verdict.cursorSeq).filter setup.selects = decision.verdict.event.toList
  ended : decision.verdict.reason = .targetsEnded → ∀ p, decision.after = some p →
    ∀ entry ∈ decision.journal.entries, setup.selects entry → entry.seq ≤ p

variable {log : List TurnEntry}

theorem Sound.grow {decision : Decision} (h : Sound setup log decision) (new : List TurnEntry) :
    Sound setup (log ++ new) decision where
  journal := by
    rw [take_append_of_le_length h.latest]
    exact h.journal
  latest := h.latest.trans (by simp)
  cursor := h.cursor
  placed := by
    intro hreason
    obtain ⟨p, hafter, hle, hkept, hselected⟩ := h.placed hreason
    refine ⟨p, hafter, hle, hkept, ?_⟩
    rw [extract_grow log new (h.cursor.trans h.latest)]
    exact hselected
  ended := h.ended

variable {journal : Journal} {allTerminal atDeadline : Bool}

/-- The verdicts of a check. -/
theorem turnOutcomeResult_cases {afterSeq : ℕ} {verdict : Verdict}
    (h : turnOutcomeResult setup journal afterSeq allTerminal atDeadline = some verdict) :
    (journal.evictedAfter afterSeq ∧ verdict = ⟨.cursorReset, none, journal.latest⟩) ∨
    (journal.evictedAfter afterSeq = false ∧
      ((∃ entry, (journal.scan afterSeq setup.targets setup.kinds).event = some entry ∧
          verdict = ⟨.event, some entry, entry.seq⟩) ∨
        (journal.scan afterSeq setup.targets setup.kinds).event = none ∧
          (allTerminal ∧ verdict = ⟨.targetsEnded, none, journal.latest⟩ ∨
            verdict = ⟨.timeout, none, journal.latest⟩))) := by
  rw [turnOutcomeResult, turnOutcome] at h
  cases hevicted : journal.evictedAfter afterSeq with
  | true =>
    refine .inl ⟨rfl, ?_⟩
    have hscan : (journal.scan afterSeq setup.targets setup.kinds).evicted := hevicted
    simp only [hscan, ↓reduceIte] at h
    exact (Option.some.inj h).symm
  | false =>
    refine .inr ⟨rfl, ?_⟩
    have hscan : (journal.scan afterSeq setup.targets setup.kinds).evicted = false := hevicted
    simp only [hscan, Bool.false_eq_true, ↓reduceIte] at h
    cases hevent : (journal.scan afterSeq setup.targets setup.kinds).event with
    | some entry =>
      simp only [hevent] at h
      exact .inl ⟨entry, rfl, (Option.some.inj h).symm⟩
    | none =>
      refine .inr ⟨rfl, ?_⟩
      cases allTerminal with
      | true =>
        simp only [hevent, ↓reduceIte] at h
        exact .inl ⟨rfl, (Option.some.inj h).symm⟩
      | false =>
        cases atDeadline with
        | true =>
          simp only [hevent, Bool.false_eq_true, ↓reduceIte] at h
          exact .inr (Option.some.inj h).symm
        | false => simp [hevent] at h

theorem sound_of_check {position : CursorPosition}
    {verdict : Verdict} (hof : journal.Of setup.capacity log)
    (hposition : position.seq ≤ log.length)
    (h : turnOutcomeResult setup journal position.seq allTerminal atDeadline = some verdict) :
    Sound setup log ⟨verdict, position.issuedNanos, some position.seq, journal⟩ := by
  have htake : log.take journal.latest = log := by rw [hof.latest, take_length]
  have hjournal : journal.Of setup.capacity (log.take journal.latest) := by rwa [htake]
  rcases turnOutcomeResult_cases h with
    ⟨-, rfl⟩ | ⟨hkept, ⟨entry, hevent, rfl⟩ | ⟨hevent, hverdict⟩⟩
  · exact ⟨hjournal, hof.latest.le, Nat.le_refl _, fun hreason => absurd rfl hreason, nofun⟩
  · rw [hof.scan_event hkept] at hevent
    obtain ⟨b, hlt, hle, hentry, hselected⟩ := extract_of_find?_some hevent
    have hseq : entry.seq = b := by
      have := hof.numbered.number_eq hentry
      omega
    refine ⟨hjournal, hof.latest.le, ?_, fun _ => ⟨_, rfl, ?_, hkept, ?_⟩, nofun⟩
    · show entry.seq ≤ journal.latest
      rw [hof.latest]
      omega
    · show position.seq ≤ entry.seq
      omega
    · rw [hseq]
      exact hselected
  · -- nothing selected is left: the cursor goes to the end of the journal
    have hnone : ∀ e ∈ journal.entries, setup.selects e → e.seq ≤ position.seq := by
      intro e he hselects
      by_contra hlater
      have := find?_eq_none.mp hevent e (mem_filter.mpr ⟨he, by simpa using hlater⟩)
      exact this hselects
    rw [hof.scan_event hkept] at hevent
    have hselected := extract_of_find?_none hevent
    rw [← hof.latest] at hselected hposition
    rcases hverdict with ⟨-, rfl⟩ | rfl
    · exact ⟨hjournal, hof.latest.le, Nat.le_refl _, fun _ => ⟨_, rfl, hposition, hkept, hselected⟩,
        fun _ p hp => Option.some.inj hp ▸ hnone⟩
    · exact ⟨hjournal, hof.latest.le, Nat.le_refl _,
        fun _ => ⟨_, rfl, hposition, hkept, hselected⟩, nofun⟩

/-! ### The invariant -/

/-- A result is the one of its decision, and the call was placed at the cursor
it was made with. -/
structure AnswerOk (setup : Setup) (log : List TurnEntry) (answer : Answer) : Prop where
  sound : Sound setup log answer.decision
  reason : answer.result.reason = answer.decision.verdict.reason
  event : answer.result.event = answer.decision.verdict.event.map TurnEntry.event
  cursor : ∃ issued ≤ u64Max,
    answer.result.cursor = cursorText setup.epoch answer.decision.verdict.cursorSeq issued
  asked : ∀ p cursor, answer.decision.after = some p → answer.asked = some cursor →
    ∃ issued, readCursor setup.epoch cursor = some ⟨p, issued⟩

/-- The call was made with the cursor of the result before it. -/
def MadeAfter (previous answer : Answer) : Prop := answer.asked = some previous.result.cursor

structure Inv (setup : Setup) (w : World) : Prop where
  journal : w.journal.Of setup.capacity w.log
  after : ∀ p, w.phase.after = some p → p ≤ w.log.length ∧
    ∀ cursor, w.cursor = some cursor → ∃ issued, readCursor setup.epoch cursor = some ⟨p, issued⟩
  decision : ∀ decision, w.phase.decision = some decision → Sound setup w.log decision
  cursor : ∀ answer, w.answers.getLast? = some answer → w.cursor = some answer.result.cursor
  answers : ∀ answer ∈ w.answers, AnswerOk setup w.log answer
  chained : w.answers.IsChain MadeAfter

theorem inv_initial (cursor : Option Text) : Inv setup (.initial cursor) where
  journal := Journal.of_new _
  after := nofun
  decision := nofun
  cursor := by simp [World.initial]
  answers := by simp [World.initial]
  chained := .nil

theorem place_seq {cursor : Text} {position : CursorPosition}
    (h : journal.place setup.epoch cursor = some position) :
    readCursor setup.epoch cursor = some position ∧ position.seq ≤ journal.latest := by
  obtain ⟨read, hread, h⟩ := Option.bind_eq_some_iff.mp h
  split at h
  · cases h
  · rename_i hlatest
    split at h
    · cases h
    · cases h
      exact ⟨hread, Nat.not_lt.mp hlatest⟩

/-- The call goes on to another phase. -/
theorem Inv.goes (h : Inv setup w) {phase : Phase} {calls : ℕ}
    (hafter : ∀ p, phase.after = some p → p ≤ w.log.length ∧ ∀ cursor, w.cursor = some cursor →
      ∃ issued, readCursor setup.epoch cursor = some ⟨p, issued⟩ := by nofun)
    (hdecision : ∀ decision, phase.decision = some decision →
    Sound setup w.log decision := by nofun) : Inv setup { w with phase := phase, calls := calls } :=
  ⟨h.journal, hafter, hdecision, h.cursor, h.answers, h.chained⟩

theorem inv_step (h : Inv setup w) (hstep : Happened setup w action w') :
    Inv setup w' := by
  cases hstep with
  | daemon new hlog hjournal hphase hcursor hcalls hanswers =>
    refine ⟨hjournal h.journal, ?_, ?_, ?_, ?_, ?_⟩
    · intro p hp
      rw [hphase] at hp
      obtain ⟨hle, hread⟩ := h.after p hp
      rw [hlog, hcursor, length_append]
      exact ⟨by omega, hread⟩
    · intro decision hdecision
      rw [hphase] at hdecision
      rw [hlog]
      exact (h.decision decision hdecision).grow new
    · rw [hanswers, hcursor]
      exact h.cursor
    · intro answer hanswer
      rw [hanswers] at hanswer
      obtain ⟨hsound, hreason, hevent, hresult, hasked⟩ := h.answers answer hanswer
      exact ⟨hlog ▸ hsound.grow new, hreason, hevent, hresult, hasked⟩
    · rw [hanswers]
      exact h.chained
  | moved phase calls hw hphase _ =>
    subst hw
    rcases hphase with ⟨hafter, hdecision⟩ | ⟨hafter, hdecision, -⟩
    · exact h.goes (by simp [hafter]) (by simp [hdecision])
    · exact h.goes (hafter ▸ h.after) (hdecision ▸ h.decision)
  | looked position check hw hafter =>
    subst hw
    exact h.goes fun p hp => h.after p (hafter.trans hp)
  | read position check id rest allTerminal info _ hphase hinfo hw =>
    subst hw
    exact h.goes fun p hp => h.after p (by rw [hphase]; exact hp)
  | placed position hw hplaced =>
    subst hw
    refine h.goes fun p hp => ?_
    obtain rfl : position.seq = p := Option.some.inj hp
    rcases hplaced with ⟨hcursor, hseq⟩ | ⟨cursor, hcursor, hplace⟩
    · exact ⟨by rw [hseq, h.journal.latest], by simp [hcursor]⟩
    · obtain ⟨hread, hle⟩ := place_seq hplace
      refine ⟨hle.trans h.journal.latest.le, fun other hother => ?_⟩
      cases hcursor.symm.trans hother
      exact ⟨_, hread⟩
  | unplaced callNanos hw =>
    subst hw
    refine h.goes (by nofun) fun decision hdecision => ?_
    cases hdecision
    have htake : w.log.take w.journal.latest = w.log := by rw [h.journal.latest, take_length]
    exact ⟨htake.symm ▸ h.journal, h.journal.latest.le, Nat.le_refl _,
      fun hreason => absurd rfl hreason, nofun⟩
  | scanned position check allTerminal verdict _ hphase hw hverdict =>
    subst hw
    obtain ⟨hle, hread⟩ := h.after position.seq (by rw [hphase]; rfl)
    refine h.goes (fun p hp => ?_) fun decision hdecision => ?_
    · obtain rfl : position.seq = p := Option.some.inj hp
      exact ⟨hle, hread⟩
    · cases hdecision
      exact sound_of_check h.journal hle hverdict
  | finished decision progress issued hphase hissued hw =>
    subst hw
    have hsound := h.decision decision (by rw [hphase]; rfl)
    refine ⟨h.journal, nofun, nofun, ?_, ?_, ?_⟩
    · intro answer hanswer
      rw [World.finished, getLast?_concat] at hanswer
      cases hanswer
      rfl
    · refine List.forall_mem_snoc h.answers
        ⟨hsound, rfl, rfl, ⟨issued, hissued, rfl⟩, fun p cursor hafter hasked => ?_⟩
      exact (h.after p (by rw [hphase]; exact hafter)).2 cursor hasked
    · refine isChain_append.mpr ⟨h.chained, isChain_singleton _,
        fun previous hprevious answer hanswer => ?_⟩
      cases hanswer
      exact h.cursor previous hprevious

variable {cursor : Option Text} {tr : List WaitMoment}

theorem inv_run (h : Run (WaitStep setup) (.initial cursor) tr w) : Inv setup w :=
  Run.invariant (inv_initial cursor)
    (fun hinv hstep => inv_step hinv (World.next_happened hstep.2)) h

theorem inv_moment (h : Run (WaitStep setup) (.initial cursor) tr w) :
    ∀ m ∈ tr, Inv setup m.world := by
  refine Run.history (by simp) (fun hrun ih hstep => ?_) h
  exact List.forall_mem_snoc ih (by rw [hstep.1]; exact inv_run hrun)

/-! ### Targets that have ended -/

/-- The moment is one of a check that found all targets terminal so far. -/
def WaitMoment.Checks (m : WaitMoment) (call : ℕ) (position : CursorPosition)
    (check : Check) : Prop :=
  m.world.calls = call ∧ ∃ rest, m.world.phase = .reading position check rest true

/-- The moments end in the check, which has read the target in a terminal
state. -/
def ReadEnded (tr : List WaitMoment) (call : ℕ) (position : CursorPosition) (check : Check)
    (id : SessionId) : Prop :=
  ∃ before m during, tr = before ++ m :: during ∧
  (∀ m' ∈ m :: during, m'.Checks call position check) ∧
    m.action = .read ∧ (∃ rest, m.world.phase = .reading position check (id :: rest) true) ∧
    ∃ info, m.world.sessions id = some info ∧ info.state.isTerminal

/-- The check whose scan made the decision had read the target in a terminal
state. -/
def ShownEnded (tr : List WaitMoment) (call : ℕ) (decision : Decision) (id : SessionId) : Prop :=
  ∃ before scan after position check, tr = before ++ scan :: after ∧
    ReadEnded before call position check id ∧ scan.action = .scan ∧ scan.world.calls = call ∧
    scan.world.phase = .reading position check [] true ∧ scan.world.journal = decision.journal

variable {call : ℕ} {id : SessionId}

theorem ReadEnded.snoc {position : CursorPosition} {check : Check}
    (h : ReadEnded tr call position check id) {m : WaitMoment} (hm : m.Checks call position check) :
    ReadEnded (tr ++ [m]) call position check id := by
  obtain ⟨before, m', during, rfl, hduring, h⟩ := h
  refine ⟨before, m', during ++ [m], by simp, ?_, h⟩
  rw [← cons_append]
  exact List.forall_mem_snoc hduring hm

theorem ShownEnded.snoc {decision : Decision} (h : ShownEnded tr call decision id)
    (m : WaitMoment) : ShownEnded (tr ++ [m]) call decision id := by
  obtain ⟨before, scan, after, position, check, rfl, h⟩ := h
  exact ⟨before, scan, after ++ [m], position, check, by simp, h⟩

/-- A check that found all targets terminal has read each of them so. -/
structure Seen (setup : Setup) (tr : List WaitMoment) (w : World) : Prop where
  reading : ∀ position check rest, w.phase = .reading position check rest true →
    ∃ found, setup.targets = found ++ rest ∧ ∀ id ∈ found, ReadEnded tr w.calls position check id
  decided : ∀ decision, w.phase.decision = some decision → decision.verdict.reason = .targetsEnded →
    ∀ id ∈ setup.targets, ShownEnded tr w.calls decision id
  answered : ∀ answer ∈ w.answers, answer.decision.verdict.reason = .targetsEnded →
    ∀ id ∈ setup.targets, ShownEnded tr answer.call answer.decision id

theorem seen_step {m : WaitMoment} (h : Seen setup tr w) (hm : m.world = w)
    (hstep : Happened setup w m.action w') : Seen setup (tr ++ [m]) w' := by
  subst hm
  have hanswered : ∀ answer ∈ m.world.answers, answer.decision.verdict.reason = .targetsEnded →
      ∀ id ∈ setup.targets, ShownEnded (tr ++ [m]) answer.call answer.decision id :=
    fun answer hanswer hreason id hid => (h.answered answer hanswer hreason id hid).snoc m
  cases hstep with
  | daemon new hlog hjournal hphase hcursor hcalls hanswers =>
    refine ⟨?_, ?_, by rwa [hanswers]⟩
    · intro position check rest hreading
      rw [hphase] at hreading
      obtain ⟨found, hfound, hshown⟩ := h.reading position check rest hreading
      exact ⟨found, hfound, fun id hid => hcalls ▸ (hshown id hid).snoc ⟨rfl, rest, hreading⟩⟩
    · intro decision hdecision hreason id hid
      rw [hphase] at hdecision
      exact hcalls ▸ (h.decided decision hdecision hreason id hid).snoc m
  | moved phase calls hw hphase hreading =>
    subst hw
    refine ⟨fun position check rest hread => absurd hread (hreading position check rest true), ?_,
      hanswered⟩
    intro decision hdecision hreason id hid
    rcases hphase with ⟨-, hnone⟩ | ⟨-, hsame, hcalls⟩
    · cases hnone.symm.trans hdecision
    · exact hcalls ▸ (h.decided decision (hsame ▸ hdecision) hreason id hid).snoc m
  | looked _ _ hw _ | placed _ hw _ =>
    -- a check that begins has nothing read
    subst hw
    refine ⟨fun position check rest hread => ?_, nofun, hanswered⟩
    obtain ⟨-, -, rfl, -⟩ := Phase.reading.inj hread
    exact ⟨[], rfl, by simp⟩
  | read position check id rest allTerminal info hread hphase hinfo hw =>
    subst hw
    refine ⟨fun position' check' rest' hphase' => ?_, nofun, hanswered⟩
    obtain ⟨rfl, rfl, rfl, hall⟩ := Phase.reading.inj hphase'
    obtain ⟨rfl, hterminal⟩ := Bool.and_eq_true_iff.mp hall
    obtain ⟨found, hfound, hshown⟩ := h.reading _ _ _ hphase
    have hm : m.Checks m.world.calls position check := ⟨rfl, _, hphase⟩
    refine ⟨found ++ [id], by simpa using hfound,
      List.forall_mem_snoc (fun other hother => (hshown other hother).snoc hm) ?_⟩
    exact ⟨tr, m, [], rfl, by simpa using hm, hread, ⟨rest, hphase⟩, info, hinfo, hterminal⟩
  | unplaced callNanos hw =>
    subst hw
    refine ⟨by simp [World.decided], ?_, hanswered⟩
    intro decision hdecision hreason
    cases hdecision
    cases hreason
  | scanned position check allTerminal verdict hscan hphase hw hverdict =>
    subst hw
    refine ⟨by simp [World.decided], ?_, hanswered⟩
    intro decision hdecision hreason id hid
    cases hdecision
    rcases turnOutcomeResult_cases hverdict with ⟨-, rfl⟩ | ⟨-, ⟨entry, -, rfl⟩ | ⟨-, ⟨rfl, -⟩ | rfl⟩⟩
    · cases hreason
    · cases hreason
    · obtain ⟨found, hfound, hshown⟩ := h.reading _ _ _ hphase
      rw [hfound, append_nil] at hid
      exact ⟨tr, m, [], position, check, rfl, hshown id hid, hscan, rfl, hphase, rfl⟩
    · cases hreason
  | finished decision progress issued hphase hissued hw =>
    subst hw
    refine ⟨by simp [World.finished], by simp [World.finished, Phase.decision],
      List.forall_mem_snoc hanswered fun hreason => ?_⟩
    exact fun id hid => (h.decided decision (by rw [hphase]; rfl) hreason id hid).snoc m

theorem seen_run (h : Run (WaitStep setup) (.initial cursor) tr w) : Seen setup tr w := by
  refine Run.history ⟨?_, ?_, ?_⟩
    (fun _ ih hstep => seen_step ih hstep.1 (World.next_happened hstep.2)) h
  · simp [World.initial]
  · simp [World.initial, Phase.decision]
  · simp [World.initial]

/-! ### The chain -/

variable {answer : Answer}

/-- A result that is no reset: its event is what is selected between the
position of the call and its cursor. -/
theorem AnswerOk.stretch (h : AnswerOk setup log answer)
    (hreason : answer.result.reason ≠ .cursorReset) : ∃ p, answer.decision.after = some p ∧
      p ≤ answer.decision.verdict.cursorSeq ∧ answer.decision.journal.evictedAfter p = false ∧
      answer.result.event.toList =
        ((log.extract p answer.decision.verdict.cursorSeq).filter setup.selects).map
        TurnEntry.event := by
  rw [h.reason] at hreason
  obtain ⟨p, hafter, hle, hkept, hselected⟩ := h.sound.placed hreason
  refine ⟨p, hafter, hle, hkept, ?_⟩
  rw [hselected, h.event]
  cases answer.decision.verdict.event <;> rfl

/-- A call made with the cursor of a result starts at its position. -/
theorem AnswerOk.position (hbounded : log.length ≤ u64Max) {previous : Answer} {p : ℕ}
    (hprevious : AnswerOk setup log previous) (h : AnswerOk setup log answer)
    (hmade : MadeAfter previous answer) (hafter : answer.decision.after = some p) :
    p = previous.decision.verdict.cursorSeq := by
  obtain ⟨issued, hissued, hcursor⟩ := hprevious.cursor
  obtain ⟨issued', hread⟩ := h.asked p _ hafter hmade
  have hseq := (hprevious.sound.cursor.trans hprevious.sound.latest).trans hbounded
  rw [hcursor, read_cursor setup.epoch hseq hissued] at hread
  exact (CursorPosition.mk.inj (Option.some.inj hread)).1.symm

/-- The events of a chain without a reset are what is selected between the
position of its first call and the one of its last cursor. -/
theorem chain_events (hbounded : log.length ≤ u64Max) : ∀ (first : Answer) (rest : List Answer),
    (∀ answer ∈ first :: rest, AnswerOk setup log answer ∧ answer.result.reason ≠ .cursorReset) →
    (first :: rest).IsChain MadeAfter → ∀ last, (first :: rest).getLast? = some last →
    ∃ p, first.decision.after = some p ∧ p ≤ last.decision.verdict.cursorSeq ∧
      (first :: rest).filterMap (·.result.event) =
        ((log.extract p last.decision.verdict.cursorSeq).filter setup.selects).map TurnEntry.event
  | first, [], hok, _, last, hlast => by
    obtain rfl : first = last := by simpa using hlast
    obtain ⟨hfirst, hreason⟩ := hok first (by simp)
    obtain ⟨p, hafter, hle, -, hevent⟩ := hfirst.stretch hreason
    refine ⟨p, hafter, hle, ?_⟩
    rw [← hevent]
    cases hresult : first.result.event <;> simp [hresult]
  | first, second :: rest, hok, hchain, last, hlast => by
    obtain ⟨hmade, hchain⟩ := isChain_cons_cons.mp hchain
    obtain ⟨hfirst, hreason⟩ := hok first (by simp)
    obtain ⟨p, hafter, hle, -, hevent⟩ := hfirst.stretch hreason
    obtain ⟨q, hafter', hle', hevents⟩ := chain_events hbounded second rest
      (fun answer hanswer => hok answer (mem_cons_of_mem _ hanswer)) hchain last
      (by rwa [getLast?_cons_cons] at hlast)
    obtain rfl := hfirst.position hbounded (hok second (by simp)).1 hmade hafter'
    refine ⟨p, hafter, hle.trans hle', ?_⟩
    rw [← extract_append_extract log hle hle', filter_append, map_append, ← hevent, ← hevents]
    cases hresult : first.result.event <;> simp [hresult]

/-- The position of the client's cursor when it made the call: of the cursor it
passed, or where the call started without one. -/
def Answer.At (setup : Setup) (answer : Answer) (p : ℕ) : Prop :=
  answer.decision.after = some p ∨
    ∃ cursor issued, answer.asked = some cursor ∧ readCursor setup.epoch cursor = some ⟨p, issued⟩

theorem AnswerOk.at_unique {p q : ℕ} (h : AnswerOk setup log answer)
    (hat : answer.At setup p) (hafter : answer.decision.after = some q) : p = q := by
  rcases hat with hafter' | ⟨cursor, issued, hasked, hread⟩
  · exact Option.some.inj (hafter'.symm.trans hafter)
  · obtain ⟨issued', hread'⟩ := h.asked q cursor hafter hasked
    exact (CursorPosition.mk.inj (Option.some.inj (hread.symm.trans hread'))).1

/-- **The cursor chain of `wait_turn`.** A client calls `wait_turn` again and
again, each time with the cursor of its last result (or, at first, any cursor
or none). Along results without a reset, the events it got are the selected
events of the log with a sequence in the range its cursors covered, in the
order of the log, which is by increasing sequence. A result decided when an
event after the client's cursor had been evicted is a reset, and a check that
finds it so ends the wait with a reset. A result that says the targets ended
was decided when the journal held no selected event after the cursor, by a
check that had read each target in a terminal state. -/
theorem wait_turn_cursor_chain {cursor : Option Text} {tr : List WaitMoment} {w : World}
    (h : Run (WaitStep setup) (.initial cursor) tr w) :
    (w.log.map TurnEntry.seq).Pairwise (· < ·) ∧ (∀ (earlier later : List Answer) previous answer,
      w.answers = earlier ++ previous :: answer :: later →
      answer.asked = some previous.result.cursor) ∧
      (∀ answer ∈ w.answers, ∃ issued, readCursor setup.epoch answer.result.cursor =
      some ⟨answer.decision.verdict.cursorSeq, issued⟩) ∧
    (∀ (earlier chain later : List Answer) first last, w.answers = earlier ++ (chain ++ later) →
      (∀ answer ∈ chain, answer.result.reason ≠ .cursorReset) → chain.head? = some first →
      chain.getLast? = some last → ∃ p, first.decision.after = some p ∧
        (∀ previous, earlier.getLast? = some previous → p = previous.decision.verdict.cursorSeq) ∧
        chain.filterMap (·.result.event) =
        (w.log.filter fun entry => setup.selects entry ∧ p < entry.seq ∧
          entry.seq ≤ last.decision.verdict.cursorSeq).map TurnEntry.event) ∧
    (∀ answer ∈ w.answers, ∀ p, answer.At setup p →
      (∃ entry ∈ w.log, entry.seq ≤ answer.decision.journal.latest ∧ p < entry.seq ∧
        entry ∉ answer.decision.journal.entries) → answer.result.reason = .cursorReset) ∧
    (∀ m ∈ tr, ∀ position check allTerminal,
      m.world.phase = .reading position check [] allTerminal →
      (∃ entry ∈ m.world.log, position.seq < entry.seq ∧ entry ∉ m.world.journal.entries) →
      m.world.next setup .scan =
      some (m.world.decided setup ⟨.cursorReset, none, m.world.journal.latest⟩
        position.issuedNanos (some position.seq))) ∧
    (∀ answer ∈ w.answers, answer.result.reason = .targetsEnded →
      (∀ p, answer.At setup p → ∀ entry ∈ answer.decision.journal.entries, setup.selects entry →
      entry.seq ≤ p) ∧ ∀ id ∈ setup.targets, ShownEnded tr answer.call answer.decision id) := by
  have hinv := inv_run h
  have hnumbered := hinv.journal.numbered
  have hbounded := hinv.journal.bounded
  refine ⟨hnumbered.pairwise, ?_, ?_, ?_, ?_, ?_, ?_⟩
  · intro earlier later previous answer hanswers
    have hchain := hinv.chained
    rw [hanswers, isChain_append] at hchain
    exact (isChain_cons_cons.mp hchain.2.1).1
  · intro answer hanswer
    obtain ⟨hsound, -, -, ⟨issued, hissued, hcursor⟩, -⟩ := hinv.answers answer hanswer
    rw [hcursor]
    exact ⟨issued, read_cursor _ ((hsound.cursor.trans hsound.latest).trans hbounded) hissued⟩
  · intro earlier chain later first last hanswers hreset hfirst hlast
    obtain ⟨rest, rfl⟩ : ∃ rest, chain = first :: rest := by
      cases chain with
      | nil => cases hfirst
      | cons head rest => exact ⟨rest, by rw [Option.some.inj hfirst]⟩
    have hchain := hinv.chained
    rw [hanswers, isChain_append, isChain_append] at hchain
    have hok : ∀ answer ∈ first :: rest, AnswerOk setup w.log answer := fun answer hanswer =>
      hinv.answers answer (by rw [hanswers]; exact mem_append_right _ (mem_append_left _ hanswer))
    obtain ⟨p, hafter, -, hevents⟩ := chain_events hbounded first rest
      (fun answer hanswer => ⟨hok answer hanswer, hreset answer hanswer⟩) hchain.2.1.1 last hlast
    refine ⟨p, hafter, fun previous hprevious => ?_, ?_⟩
    · have hmem : previous ∈ w.answers := by
        rw [hanswers]
        exact mem_append_left _ (mem_of_getLast? hprevious)
      exact (hinv.answers previous hmem).position hbounded (hok first (by simp))
        (hchain.2.2 previous hprevious first rfl) hafter
    · rw [hevents, ← hnumbered.filter_range, filter_filter]
      congr 2
      funext entry
      simp
  · intro answer hanswer p hat hgone
    have hok := hinv.answers answer hanswer
    by_contra hreset
    obtain ⟨q, hafter, -, hkept, -⟩ := hok.stretch hreset
    obtain rfl := hok.at_unique hat hafter
    obtain ⟨entry, hentry, hseq, hlater, hnot⟩ := hgone
    have hmem : entry ∈ w.log.take answer.decision.journal.latest := by
      have := hnumbered.filter_upto answer.decision.journal.latest
      rw [Nat.sub_zero] at this
      rw [← this]
      exact mem_filter.mpr ⟨hentry, by simpa using hseq⟩
    rw [(hok.sound.journal.exists_evicted_iff p).mp ⟨entry, hmem, hlater, hnot⟩] at hkept
    cases hkept
  · intro m hm position check allTerminal hphase hgone
    have hevicted := ((inv_moment h m hm).journal.exists_evicted_iff position.seq).mp hgone
    simp only [World.next, hphase, turnOutcomeResult, turnOutcome]
    simp only [show (m.world.journal.scan position.seq setup.targets setup.kinds).evicted =
      true from hevicted, ↓reduceIte]
    rfl
  · intro answer hanswer hreason
    have hok := hinv.answers answer hanswer
    refine ⟨fun p hat => ?_, (seen_run h).answered answer hanswer (hok.reason ▸ hreason)⟩
    obtain ⟨q, hafter, -⟩ := hok.stretch (by rw [hreason]; nofun)
    obtain rfl := hok.at_unique hat hafter
    exact hok.sound.ended (hok.reason ▸ hreason) p hafter

/-! ### A run -/

/-- Actions taken one after the other are a run. -/
theorem actions_run {actions : List Action}
    (h : Run (fun w action w' => w.next setup action = some w') w actions w') :
    ∃ tr, Run (WaitStep setup) w tr w' := by
  induction h with
  | refl => exact ⟨[], .refl _⟩
  | snoc _ hstep ih =>
    obtain ⟨tr, htr⟩ := ih
    exact ⟨tr ++ [⟨_, _⟩], htr.snoc ⟨rfl, hstep⟩⟩

namespace WaitSample

def daemon : Setup := ⟨['d'], 2, fun _ => none, ["s"], [.turnCompleted, .exited]⟩

/-- The client waits for `s`, whose turn ends while the wait is parked. -/
def waiting : List Action :=
  [.observe 0 "s" ⟨.running, none⟩ "", .call 1, .find, .place, .read, .scan, .acquire true,
    .record "s" .turnCompleted "" none, .wake, .read, .scan, .report, .finish 9]

/-- Another session goes on and `s` ends. -/
def ending : List Action := [.record "x" .turnCompleted "" none, .observe 1 "s" ⟨.done, none⟩ ""]

def answering : List Action := [.call 1, .find, .place, .read, .scan, .report, .finish 9]

/-- The ring loses events the client has not seen. -/
def losing : List Action :=
  [.record "x" .turnCompleted "" none, .record "x" .turnCompleted "" none,
    .record "s" .turnCompleted "" none, .call 1, .find, .place, .reset, .report, .finish 9]

def actions : List Action := List.flatten [waiting, ending, answering, answering, losing]

end WaitSample

open WaitSample in
theorem wait_turn_cursor_chain_ended : ∃ (tr : List WaitMoment) (w : World),
    w.answers.map (·.result.reason) = [.event, .event, .targetsEnded, .cursorReset] ∧
    ((w.answers.take 3).filterMap (·.result.event)).map (·.kind) = [.turnCompleted, .exited] ∧
    (w.log.map TurnEntry.seq).Pairwise (· < ·) ∧
    ∀ answer ∈ w.answers, answer.result.reason = .targetsEnded →
      (∀ p, answer.At daemon p → ∀ entry ∈ answer.decision.journal.entries, daemon.selects entry →
      entry.seq ≤ p) ∧ ∀ id ∈ daemon.targets, ShownEnded tr answer.call answer.decision id := by
  obtain ⟨tr, htr⟩ :=
    actions_run (steps_get (World.next daemon) (.initial none) actions (by decide +kernel))
  obtain ⟨hlog, -, -, -, -, -, hended⟩ := wait_turn_cursor_chain htr
  exact ⟨tr, _, by decide +kernel, by decide +kernel, hlog, hended⟩

/-- **The journal is the end of the log.** However events and waits interleave,
it holds the last events, as many as fit, and none is numbered twice or left out. -/
theorem journal_retains_last (h : Run (WaitStep setup) (.initial cursor) tr w) :
    w.journal.latest = w.log.length ∧ w.journal.entries = w.log.drop
    (w.log.length - max setup.capacity 1) ∧
      ∀ k entry, w.log[k]? = some entry → entry.seq = k + 1 := by
  have hjournal := (inv_run h).journal
  exact ⟨hjournal.latest, hjournal.entries,
    fun k entry hk => by simpa using hjournal.numbered.number_eq hk⟩

open WaitSample in
theorem journal_retains_last_losing : ∃ w : World, w.log.length = 6 ∧
    w.journal.entries = w.log.drop (w.log.length - 2) := by
  obtain ⟨tr, htr⟩ :=
    actions_run (steps_get (World.next daemon) (.initial none) actions (by decide +kernel))
  exact ⟨_, by decide +kernel, (journal_retains_last htr).2.1⟩

end Pohunek.Turns
