/-
# The turn-event journal

`Journal` and the methods of `TurnEvents` that work on it
(`crates/daemon/src/session/turn_events.rs`): a bounded ring of turn events
with one sequence, and for each session whether it was terminal when last
observed and the progress of its turns. A method that stamps an event takes
the text of the time it read. `append` has no result where the sequence would
overflow.

`Journal.Of` relates a journal to the log of all events ever appended: the
ring is the end of the log, and the sequence of an event is its place in it.
-/
import Pohunek.Lib.Stretch
import Pohunek.Turns.Cursor
import Pohunek.Turns.Table

namespace Pohunek.Turns

open Stretch List

abbrev SessionId := String

abbrev NotificationId := String

inductive SessionTurnEventKind
  | turnCompleted | agentBlocked | approvalRequired | exited
  deriving DecidableEq

inductive SessionState
  | starting | running | stopped | done | failed
  deriving DecidableEq

def SessionState.isTerminal : SessionState → Bool
  | stopped | done | failed => true
  | _ => false

structure TurnEntry where
  seq : ℕ
  sessionId : SessionId
  kind : SessionTurnEventKind
  recordedAt : String
  notificationId : Option NotificationId
  deriving DecidableEq

structure Journal where
  entries : List TurnEntry
  latest : ℕ
  terminal : SessionId → Option Bool
  progress : SessionId → Option TurnProgress

structure TurnScan where
  event : Option TurnEntry
  latest : ℕ
  evicted : Bool
  deriving DecidableEq

namespace Journal

/-- `Journal::default()`. -/
def new : Journal := ⟨[], 0, fun _ => none, fun _ => none⟩

variable (journal : Journal) (sessionId : SessionId)

/-- The next event. -/
def entry (kind : SessionTurnEventKind) (stamp : String)
    (notificationId : Option NotificationId) : TurnEntry :=
  ⟨journal.latest + 1, sessionId, kind, stamp, notificationId⟩

/-- `TurnEvents::new` takes a capacity of at least one. -/
def append (capacity : ℕ) (journal : Journal) (entry : TurnEntry) : Option Journal :=
  if journal.latest < u64Max then
    let entries := journal.entries ++ [entry]
    some { journal with
      latest := journal.latest + 1
      entries := entries.drop (entries.length - max capacity 1) }
  else none

/-- The event `observe_state` records: a known session became terminal. -/
def exit (state : SessionState) (stamp : String) : Option TurnEntry :=
  if state.isTerminal ∧ journal.terminal sessionId = some false then
    some (journal.entry sessionId .exited stamp none)
  else none

def observeState (capacity : ℕ) (journal : Journal) (now : ℕ) (sessionId : SessionId)
    (state : SessionState) (stamp : String) : Option Journal :=
  let observed : Journal :=
    { journal with terminal := Function.update journal.terminal sessionId (some state.isTerminal) }
  match journal.exit sessionId state stamp with
  | some entry =>
    append capacity
      { observed with
        progress := Function.update journal.progress sessionId
          ((journal.progress sessionId).map (·.abandonAll now)) } entry
  | none => some observed

def forget : Journal :=
  { journal with
    terminal := Function.update journal.terminal sessionId none
    progress := Function.update journal.progress sessionId none }

/-- Whether events right after `seq` were evicted. -/
def evictedAfter (journal : Journal) (seq : ℕ) : Bool :=
  journal.entries.head?.any fun oldest => min (seq + 1) u64Max < oldest.seq

def place (epoch : Text) (journal : Journal) (cursor : Text) : Option CursorPosition :=
  (readCursor epoch cursor).bind fun position =>
    if journal.latest < position.seq then none
    else if journal.evictedAfter position.seq then none
    else some position

def scan (journal : Journal) (after : ℕ) (targets : List SessionId)
    (kinds : List SessionTurnEventKind) : TurnScan where
  event := (journal.entries.filter fun entry => after < entry.seq).find? fun entry =>
    targets.contains entry.sessionId && kinds.contains entry.kind
  latest := journal.latest
  evicted := journal.evictedAfter after

/-! ### The journal and its log -/

/-- The journal after the events `log` were appended. -/
structure Of (capacity : ℕ) (log : List TurnEntry) (journal : Journal) : Prop where
  latest : journal.latest = log.length
  entries : journal.entries = log.drop (log.length - max capacity 1)
  numbered : Numbered TurnEntry.seq 0 log
  bounded : log.length ≤ u64Max

variable {capacity : ℕ} {log : List TurnEntry} {journal journal' : Journal}

theorem of_new (capacity : ℕ) : new.Of capacity [] := ⟨rfl, by simp [new], trivial, Nat.zero_le _⟩

theorem Of.append {entry : TurnEntry} (h : journal.Of capacity log)
    (hentry : entry.seq = journal.latest + 1)
    (happend : journal.append capacity entry = some journal') :
    journal'.Of capacity (log ++ [entry]) := by
  rw [Journal.append] at happend
  split at happend
  · rename_i hroom
    cases happend
    refine ⟨?_, ?_, h.numbered.snoc (by rw [hentry, h.latest, Nat.zero_add]), ?_⟩
    · simp [h.latest]
    · show (journal.entries ++ [entry]).drop _ = _
      have hsplit : journal.entries ++ [entry] = (log ++ [entry]).drop
        (log.length - max capacity 1) := by
        rw [h.entries, drop_append_of_le_length (by omega)]
      rw [hsplit, drop_drop, length_drop, length_append, length_singleton]
      congr 1
      omega
    · rw [length_append, ← h.latest]
      exact hroom
  · cases happend

/-- The log of a journal depends on its ring only. -/
theorem Of.congr (h : journal.Of capacity log) (hlatest : journal'.latest = journal.latest)
    (hentries : journal'.entries = journal.entries) : journal'.Of capacity log :=
  ⟨hlatest.trans h.latest, hentries.trans h.entries, h.numbered, h.bounded⟩

theorem Of.observeState {now : ℕ} {sessionId : SessionId} {state : SessionState} {stamp : String}
    (h : journal.Of capacity log)
    (hobserve : journal.observeState capacity now sessionId state stamp = some journal') :
    journal'.Of capacity (log ++ (journal.exit sessionId state stamp).toList) := by
  rw [Journal.observeState] at hobserve
  split at hobserve
  · rename_i entry hexit
    have hseq : entry.seq = journal.latest + 1 := by
      rw [exit] at hexit
      split at hexit
      · cases hexit
        rfl
      · cases hexit
    rw [hexit]
    refine Of.append ?_ ?_ hobserve
    · exact h.congr rfl rfl
    · exact hseq
  · rename_i hexit
    cases hobserve
    rw [hexit, Option.toList_none, append_nil]
    exact h.congr rfl rfl

/-- The number of events the ring has lost. -/
def lost (capacity : ℕ) (log : List TurnEntry) : ℕ := log.length - max capacity 1

theorem Of.evictedAfter_iff (h : journal.Of capacity log) (seq : ℕ) :
    journal.evictedAfter seq = true ↔ seq < lost capacity log := by
  have hbounded := h.bounded
  rw [evictedAfter, h.entries, head?_drop, lost]
  cases holdest : log[log.length - max capacity 1]? with
  | none =>
    -- the ring is empty only before the first event
    rw [List.getElem?_eq_none_iff] at holdest
    simp only [Option.any_none, Bool.false_eq_true, false_iff]
    omega
  | some oldest =>
    have hseq := h.numbered.number_eq holdest
    obtain ⟨hlt, -⟩ := List.getElem?_eq_some_iff.mp holdest
    rw [Option.any_some, decide_eq_true_eq, hseq]
    omega

/-- An event after `seq` is gone from the ring exactly when the events right
after `seq` are. -/
theorem Of.exists_evicted_iff (h : journal.Of capacity log) (seq : ℕ) :
    (∃ entry ∈ log, seq < entry.seq ∧ entry ∉ journal.entries) ↔ journal.evictedAfter seq := by
  rw [h.evictedAfter_iff, h.entries]
  have hring := h.numbered.drop (lost capacity log)
  constructor
  · rintro ⟨entry, hentry, hlater, hgone⟩
    by_contra hkept
    rw [← take_append_drop (lost capacity log) log] at hentry
    rcases mem_append.mp hentry with hearly | hlate
    · have := ((h.numbered.take (lost capacity log)).lt_number hearly).2
      rw [length_take] at this
      omega
    · exact hgone hlate
  · intro hlost
    have hlt : seq < log.length := by
      rw [lost] at hlost
      omega
    have hseq := h.numbered.number_eq (getElem?_eq_getElem hlt)
    refine ⟨log[seq], getElem_mem hlt, by omega, fun hlate => ?_⟩
    have := (hring.lt_number hlate).1
    omega

/-- Where nothing right after `after` is lost, a scan finds the oldest selected
event of the log after it. -/
theorem Of.scan_event (h : journal.Of capacity log) {after : ℕ}
    (hkept : journal.evictedAfter after = false) (targets : List SessionId)
    (kinds : List SessionTurnEventKind) : (journal.scan after targets kinds).event =
      (log.drop after).find? fun entry => targets.contains entry.sessionId &&
      kinds.contains entry.kind := by
  have hle : lost capacity log ≤ after := by
    by_contra hlost
    rw [(h.evictedAfter_iff after).mpr (by omega)] at hkept
    cases hkept
  have hring := (h.numbered.drop (lost capacity log)).filter_above after
  rw [drop_drop, Nat.zero_add, show lost capacity log + (after - lost capacity log) =
    after by omega] at hring
  rw [scan, h.entries, ← lost, hring]

end Journal

end Pohunek.Turns
