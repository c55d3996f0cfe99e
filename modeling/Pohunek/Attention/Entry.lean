/-
# One key of the coordinator

What the handlers do to the entry and the timers of a key, for the entries
that name no turn (`entry`, `timers`), and what every run keeps (`Ok`): the
timers of a key are ordered alike by generation and by command, so the guard
of `flush` lets through exactly the timer of the command that armed the entry
last, and every entry has that timer in the queue.
-/
import Pohunek.Lib.Run
import Pohunek.Attention.Coordinator

namespace Pohunek.Attention

open Notifications Turns Runs List AList Coordinator Option Timer

/-- A run of the loop: what it took up, and what it did. -/
abbrev Trace := List (Label Input (List Effect))

namespace Coordinator

/-- The pending entry of a key that names no turn. -/
def entry (c : Coordinator) (dedupeKey : String) :
    Option Pending := c.pending.lookup (dedupeKey, none)

/-- The timers armed for it, oldest first. -/
def timers (c : Coordinator) (dedupeKey : String) : List Timer :=
  c.queue.filter fun timer => timer.token.key = (dedupeKey, none)

end Coordinator

/-! ### Effects -/

def Effect.committed : Effect → Option NotificationRecord
  | .commit record _ _ => some record
  | _ => none

/-- The records handed to the store. -/
def commits (effects : List Effect) : List NotificationRecord := effects.filterMap Effect.committed

@[simp]
theorem commits_nil : commits [] = [] := rfl

@[simp]
theorem commits_append (a b : List Effect) : commits (a ++ b) = commits a ++ commits b :=
  filterMap_append

@[simp]
theorem commits_acknowledge (dedupeKey : String) (asOf : Option ResolveAsOf) :
    commits [.acknowledge dedupeKey asOf] = [] := rfl

@[simp]
theorem commits_markReported (sessionId : SessionId) (turn : TurnId) (inbox signal : Bool) :
    commits [.markReported sessionId turn inbox signal] = [] := rfl

@[simp]
theorem commits_noteHeldRecheck : commits [.noteHeldRecheck] = [] := rfl

theorem commits_recordTurn (env : Env) (signal : NotificationRecord)
    (committed : Option NotificationRecord) (namesTurn : Bool) :
    commits (recordTurn env signal committed namesTurn).toList = [] := by
  unfold recordTurn
  split
  · split <;> rfl
  · rfl

theorem commits_signal (env : Env) (signal committed : Option NotificationRecord)
    (namesTurn : Bool) :
    commits (signal.bind fun signal => recordTurn env signal committed namesTurn).toList = [] := by
  cases signal with
  | none => rfl
  | some signal => exact commits_recordTurn env signal committed namesTurn

theorem commits_inbox (inbox : Option NotificationRecord) (minted : ℕ)
    (stamp : Option TurnSnapshot) :
    commits (inbox.map fun record => Effect.commit record minted stamp).toList = inbox.toList := by
  cases inbox <;> rfl

/-! ### Entries of turns leave the others alone -/

/-- Entries may be gone; the timers that name no turn stay. -/
structure Shrinks (c c' : Coordinator) : Prop where
  timers : ∀ dedupeKey, c'.timers dedupeKey = c.timers dedupeKey := by exact fun _ => rfl
  generation : c'.generation = c.generation := by rfl
  number : c'.number = c.number := by rfl
  pending : ∀ {key entry}, c'.pending.lookup key = some entry →
    c.pending.lookup key = some entry := by exact fun h => h

/-- Nothing changed but entries and timers that name a turn. -/
structure Frame (c c' : Coordinator) : Prop extends Shrinks c c' where
  entry : ∀ dedupeKey, c'.entry dedupeKey = c.entry dedupeKey := by exact fun _ => rfl
  resolved : c'.recentlyResolvedTurns = c.recentlyResolvedTurns := by rfl
  clock : c'.clock = c.clock := by rfl

namespace Frame

theorem refl (c : Coordinator) : Frame c c := {}

theorem trans {c c' c'' : Coordinator} (h : Frame c c') (h' : Frame c' c'') : Frame c c'' where
  entry k := (h'.entry k).trans (h.entry k)
  timers k := (h'.timers k).trans (h.timers k)
  generation := h'.generation.trans h.generation
  resolved := h'.resolved.trans h.resolved
  clock := h'.clock.trans h.clock
  number := h'.number.trans h.number
  pending hk := h.pending (h'.pending hk)

end Frame

variable {key : PendingKey}

theorem lookup_of_erase {pending : AList fun _ : PendingKey => Pending} {gone : PendingKey}
    {entry : Pending} (h : (pending.erase gone).lookup key = some entry) :
    pending.lookup key = some entry := by
  by_cases hkey : key = gone
  · rw [hkey, lookup_erase] at h
    simp at h
  · rwa [lookup_erase_ne hkey] at h

variable {c : Coordinator}

/-- The entry of a turn is taken out. -/
theorem frame_erase (hkey : key.2 ≠ none) :
    Frame c { c with pending := c.pending.erase key } := by
  refine { entry := fun dedupeKey => ?_, pending := lookup_of_erase }
  have hne : ((dedupeKey, none) : PendingKey) ≠ key := fun h => hkey (by rw [← h])
  exact lookup_erase_ne hne

variable {timer : Timer}

/-- A timer of a turn is armed again. -/
theorem frame_rearm (hkey : timer.token.key.2 ≠ none) :
    Frame c { c with queue := c.queue ++ [timer] } := by
  refine { timers := fun dedupeKey => ?_ }
  have hne : timer.token.key ≠ (dedupeKey, none) := fun h => hkey (by rw [h])
  simp [timers, hne]

variable {policy : Policy} {env : Env} {number : ℕ}

/-- The inbox record of an entry that names a turn. -/
def OfTurn (c : Coordinator) (record : NotificationRecord) : Prop :=
  ∃ key entry, key.2 ≠ none ∧ c.pending.lookup key = some entry ∧ entry.inbox = some record

theorem flushTurn_frame {token : FlushToken} {turn : TurnId} {entry : Pending}
    (hkey : token.key.2 = some turn) (hentry : c.pending.lookup token.key = some entry) :
    Frame c (c.flushTurn policy env number token turn entry).1 ∧
      ∀ record ∈ commits (c.flushTurn policy env number token turn entry).2, OfTurn c record := by
  have hnamed : token.key.2 ≠ none := by simp [hkey]
  unfold flushTurn
  split
  · exact ⟨frame_erase hnamed, by simp⟩
  · split
    · exact ⟨frame_erase hnamed, by simp⟩
    · exact ⟨frame_rearm hnamed, by simp⟩
    · rename_i snapshot _
      refine ⟨frame_erase hnamed, fun record hrecord => ⟨token.key, entry, hnamed, hentry, ?_⟩⟩
      rw [commits_append, commits_append, commits_inbox, commits_signal] at hrecord
      have hinbox : record ∈ (entry.inbox.filter fun _ => !snapshot.inboxReported).toList := by
        simpa only [append_nil, commits_markReported] using hrecord
      exact (filter_eq_some_iff.mp (mem_toList.mp hinbox)).1

theorem flush_frame {token : FlushToken} (hkey : token.key.2 ≠ none) :
    Frame c (c.flush policy env number token).1 ∧
      ∀ record ∈ commits (c.flush policy env number token).2, OfTurn c record := by
  fun_cases c.flush policy env number token
  · exact ⟨.refl c, by simp⟩
  · exact ⟨.refl c, by simp⟩
  next hnone => exact absurd hnone hkey
  next hentry _ _ hturn => exact flushTurn_frame hturn hentry

variable {c' : Coordinator} {record : NotificationRecord}

theorem OfTurn.of_frame (h : Frame c c')
    (hrecord : OfTurn c' record) : OfTurn c record := by
  obtain ⟨key, entry, hkey, hentry, hinbox⟩ := hrecord
  exact ⟨key, entry, hkey, h.pending hentry, hinbox⟩

theorem flushClosed_frame (policy : Policy) (env : Env) (number : ℕ) :
    ∀ (tokens : List FlushToken) (c : Coordinator),
    Frame c (c.flushClosed policy env number tokens).1 ∧
      ∀ record ∈ commits (c.flushClosed policy env number tokens).2, OfTurn c record
  | [], c => ⟨.refl c, by simp [flushClosed]⟩
  | token :: tokens, c => by
    unfold flushClosed
    simp only
    split
    · rename_i hsurfaces
      have hkey : token.key.2 ≠ none := by
        intro hnone
        simp [hnone] at hsurfaces
      have hflush : Frame c (c.flush policy env number token).1 ∧
          ∀ record ∈ commits (c.flush policy env number token).2, OfTurn c record :=
          flush_frame hkey
      obtain ⟨hfirst, hcommits⟩ := hflush
      obtain ⟨hrest, hothers⟩ :=
        flushClosed_frame policy env number tokens (c.flush policy env number token).1
      refine ⟨hfirst.trans hrest, fun record hrecord => ?_⟩
      rcases mem_append.mp (commits_append _ _ ▸ hrecord) with h | h
      · exact hcommits record h
      · exact .of_frame hfirst (hothers record h)
    · simpa using flushClosed_frame policy env number tokens c

/-! ### Holding a record -/

namespace Coordinator

variable {c : Coordinator} {key : PendingKey} {deferred : DeferredNotification} {inbox : Bool}

/-- The generation of the entry after a record was merged. -/
def nextGeneration (c : Coordinator) (key : PendingKey) (inbox : Bool) : ℕ :=
  (c.keptGeneration key inbox).getD (c.generation + 1)

theorem hold_pending : (c.hold policy env number key deferred inbox).pending =
    c.pending.insert key
    (.merge policy (c.pending.lookup key) deferred inbox (c.nextGeneration key inbox)) := by
  unfold hold nextGeneration
  cases c.keptGeneration key inbox <;> rfl

theorem hold_queue : (c.hold policy env number key deferred inbox).queue =
    c.queue ++ if (c.keptGeneration key inbox).isNone then
      [⟨⟨key, c.generation + 1⟩, env.now + policy.debounce, number⟩] else [] := by
  unfold hold
  cases c.keptGeneration key inbox <;> simp

theorem hold_generation : (c.hold policy env number key deferred inbox).generation =
    if (c.keptGeneration key inbox).isNone then c.generation + 1 else c.generation := by
  unfold hold
  cases c.keptGeneration key inbox <;> simp

@[simp]
theorem hold_fields : (c.hold policy env number key deferred inbox).number = c.number ∧
    (c.hold policy env number key deferred inbox).clock = c.clock ∧
    (c.hold policy env number key deferred inbox).recentlyResolvedTurns =
    c.recentlyResolvedTurns := by
  unfold hold
  cases c.keptGeneration key inbox <;> exact ⟨rfl, rfl, rfl⟩

theorem hold_lookup_ne {other : PendingKey} (h : other ≠ key) :
    (c.hold policy env number key deferred inbox).pending.lookup other =
    c.pending.lookup other := by
  rw [hold_pending, lookup_insert_ne h]

variable {dedupeKey : String}

theorem hold_timers (h : key ≠ (dedupeKey, none)) :
    (c.hold policy env number key deferred inbox).timers dedupeKey = c.timers dedupeKey := by
  unfold timers
  rw [hold_queue, filter_append]
  split <;> simp [h]

/-- A timer was there before, or is the one just armed. -/
theorem timer_of_hold (h : timer ∈ (c.hold policy env number key deferred inbox).timers dedupeKey) :
    timer ∈ c.timers dedupeKey ∨ (c.keptGeneration key inbox).isNone ∧
      timer = ⟨⟨key, c.generation + 1⟩, env.now + policy.debounce, number⟩ := by
  rw [timers, hold_queue, filter_append] at h
  refine (mem_append.mp h).imp_right fun hnew => ?_
  have hnew := (mem_filter.mp hnew).1
  split at hnew
  · exact ⟨‹_›, mem_singleton.mp hnew⟩
  · simp at hnew

/-- A kept generation is that of an entry with an inbox record, which the
record did not join. -/
theorem keptGeneration_eq_some {generation : ℕ} (h : c.keptGeneration key inbox = some generation) :
    inbox = false ∧ ∃ entry, c.pending.lookup key = some entry ∧ entry.inbox.isSome ∧
      entry.generation = generation := by
  obtain ⟨entry, hentry, hgeneration⟩ := map_eq_some_iff.mp h
  obtain ⟨hlookup, hkept⟩ := filter_eq_some_iff.mp hentry
  rw [Bool.and_eq_true, Bool.not_eq_true'] at hkept
  exact ⟨hkept.1, entry, hlookup, hkept.2, hgeneration⟩

/-- A timer is armed for a record for the inbox, and where no inbox record is
pending. -/
theorem keptGeneration_isNone (c : Coordinator) (dedupeKey : String) (inbox : Bool) :
    (c.keptGeneration (dedupeKey, none) inbox).isNone ↔
      inbox ∨ (c.entry dedupeKey).bind (·.inbox) = none := by
  unfold keptGeneration
  rw [show c.pending.lookup (dedupeKey, none) = c.entry dedupeKey from rfl]
  cases c.entry dedupeKey with
  | none => simp
  | some entry => cases inbox <;> cases hinbox : entry.inbox <;> simp [hinbox]

theorem hold_entry (policy : Policy) (env : Env) (number : ℕ) (c : Coordinator) (dedupeKey : String)
    (deferred : DeferredNotification) (inbox : Bool) :
    (c.hold policy env number (dedupeKey, none) deferred inbox).entry dedupeKey =
      some (.merge policy (c.entry dedupeKey) deferred inbox
      (c.nextGeneration (dedupeKey, none) inbox)) := by
  rw [entry, hold_pending, lookup_insert]
  rfl

theorem mem_hold_timers :
    timer ∈ (c.hold policy env number (dedupeKey, none) deferred inbox).timers dedupeKey ↔
      timer ∈ c.timers dedupeKey ∨ (c.keptGeneration (dedupeKey, none) inbox).isNone ∧
        timer = ⟨⟨(dedupeKey, none), c.generation + 1⟩, env.now + policy.debounce, number⟩ := by
  refine ⟨timer_of_hold, fun h => ?_⟩
  rw [timers, hold_queue, filter_append]
  rcases h with h | ⟨harmed, rfl⟩
  · exact mem_append_left _ h
  · simp [harmed]

end Coordinator

/-! ### One turn of the loop -/

/-- A command is taken from the channel. -/
def Coordinator.arrive (c : Coordinator) (now number : ℕ) :
    Coordinator := { c with clock := now, number := number }

/-- A timer is taken from the queue. -/
def Coordinator.take (c : Coordinator) (now : ℕ) (key : PendingKey) (number : ℕ) : Coordinator :=
  { c with clock := now, queue := c.queue.eraseP (Timer.due key number now) }

inductive Handled (policy : Policy) (c : Coordinator) (env : Env) :
    Event → Coordinator × List Effect → Prop
  | defer {number : ℕ} (hnumber : c.number < number) (deferred : DeferredNotification) :
    Handled policy c env (.defer number deferred)
    ((c.arrive env.now number).defer policy env number deferred)
  | resolve {number : ℕ}
      (hnumber : c.number < number) (dedupeKey : String) (asOf : Option ResolveAsOf) :
    Handled policy c env (.resolve number dedupeKey asOf)
      ((c.arrive env.now number).resolve policy env number dedupeKey asOf)
  | expire {number : ℕ} {key : PendingKey} {timer : Timer}
    (htimer : c.queue.find? (Timer.due key number env.now) = some timer) :
    Handled policy c env (.expire key number)
    ((c.take env.now key number).flush policy env number timer.token)

variable {result : Coordinator × List Effect}

theorem Handled.expire_inv
    (h : Handled policy c env (.expire key number) result) :
    ∃ timer, c.queue.find? (due key number env.now) = some timer ∧
      result = (c.take env.now key number).flush policy env number timer.token := by
  cases h with
  | expire htimer => exact ⟨_, htimer, rfl⟩

theorem handle_eq_some_iff {input : Input} :
    c.handle policy input = some result ↔
      c.clock ≤ input.env.now ∧ Handled policy c input.env input.event result := by
  obtain ⟨event, env⟩ := input
  unfold handle
  simp only
  by_cases hclock : env.now < c.clock
  · rw [if_pos hclock]
    exact ⟨nofun, fun h => absurd h.1 (by omega)⟩
  · rw [if_neg hclock]
    refine (and_iff_right_of_imp fun _ => by omega).symm.trans (and_congr_right fun _ => ?_)
    cases event with
    | defer number deferred =>
      dsimp only
      by_cases hnumber : number ≤ c.number
      · rw [if_pos hnumber]
        exact ⟨nofun, fun | .defer h _ => absurd h (by omega)⟩
      · rw [if_neg hnumber, some.injEq]
        exact ⟨fun h => h ▸ .defer (by omega) deferred, fun | .defer _ _ => rfl⟩
    | resolve number dedupeKey asOf =>
      dsimp only
      by_cases hnumber : number ≤ c.number
      · rw [if_pos hnumber]
        exact ⟨nofun, fun | .resolve h _ _ => absurd h (by omega)⟩
      · rw [if_neg hnumber, some.injEq]
        exact ⟨fun h => h ▸ .resolve (by omega) dedupeKey asOf, fun | .resolve _ _ _ => rfl⟩
    | expire key number =>
      cases htimer : c.queue.find? (due key number env.now) with
      | none =>
        simp only [htimer]
        exact ⟨nofun, fun | .expire h => by rw [htimer] at h; simp at h⟩
      | some timer =>
        simp only [htimer, some.injEq]
        refine ⟨fun h => h ▸ .expire htimer, fun h => ?_⟩
        cases h with
        | expire h =>
          rw [htimer] at h
          rw [some.inj h]
          rfl

/-- What was handled in the midst of a run. -/
theorem handled_at {tr later : Trace} {l : Label Input (List Effect)} {s : Coordinator}
    (h : Run (StepOf (handle policy)) .new (tr ++ l :: later) s) :
    ∃ t u, Run (StepOf (handle policy)) .new tr t ∧ Handled policy t l.call.env l.call.event
    (u, l.answer) := by
  obtain ⟨t, hbefore, hrest⟩ := h.split
  obtain ⟨u, hstep, -⟩ := hrest.cons_inv
  exact ⟨t, u, hbefore, (handle_eq_some_iff.mp hstep).2⟩

/-- A timer that is due can expire. -/
theorem handled_of_due {dedupeKey : String} (h : timer ∈ c.timers dedupeKey)
    (hdue : timer.deadline ≤ env.now) :
    ∃ result, Handled policy c env (.expire (dedupeKey, none) timer.number) result := by
  have hmem := mem_filter.mp h
  have hsome : (c.queue.find? (due (dedupeKey, none) timer.number env.now)).isSome := by
    rw [find?_isSome]
    exact ⟨timer, hmem.1, by simpa [due, hdue] using hmem.2⟩
  obtain ⟨found, hfound⟩ := isSome_iff_exists.mp hsome
  exact ⟨_, .expire hfound⟩

/-! ### The handlers, key by key -/

open Coordinator

namespace Coordinator

variable {c : Coordinator} {dedupeKey : String} {deferred : DeferredNotification}
    {asOf : Option ResolveAsOf}

/-- Whether the inbox takes the record, as `defer` finds it. -/
def accepts (policy : Policy) (env : Env) (c : Coordinator) (dedupeKey : String)
    (deferred : DeferredNotification) : Bool :=
  takes policy env (pruneRecentlyResolvedTurns c.recentlyResolvedTurns env.now policy.debounce)
  dedupeKey deferred

/-- The first half of `defer`. -/
def consumed (policy : Policy) (env : Env) (c : Coordinator) (dedupeKey : String)
    (deferred : DeferredNotification) : Coordinator :=
  { c with
    recentlyResolvedTurns := consume policy env
      (pruneRecentlyResolvedTurns c.recentlyResolvedTurns env.now policy.debounce)
      dedupeKey deferred }

theorem defer_keyless (h : deferred.record.dedupeKey = none) : c.defer policy env number deferred =
    (c, if deferred.inbox then [.commit deferred.record deferred.minted none] else []) := by
  unfold defer
  simp only [h]

theorem defer_key (h : deferred.record.dedupeKey = some dedupeKey) :
    c.defer policy env number deferred =
    (if !c.accepts policy env dedupeKey deferred && !deferred.signal then
      c.consumed policy env dedupeKey deferred
      else (c.consumed policy env dedupeKey deferred).hold policy env number
        (dedupeKey, deferred.turn) deferred (c.accepts policy env dedupeKey deferred), []) := by
  unfold defer
  simp only [h]
  exact (apply_ite (fun c => (c, ([] : List Effect))) _ _ _).symm

theorem cancel_entry : (c.cancel policy env dedupeKey asOf).entry dedupeKey =
    if c.refreshedSince (dedupeKey, none) asOf then c.entry dedupeKey else none := by
  unfold cancel
  simp only
  split
  · rfl
  · exact lookup_erase _ _

variable {key : PendingKey}

theorem cancel_lookup (h : key ≠ (dedupeKey, none)) :
    (c.cancel policy env dedupeKey asOf).pending.lookup key = c.pending.lookup key := by
  unfold cancel
  simp only
  split
  · rfl
  · exact lookup_erase_ne h

variable {entry : Pending}

theorem cancel_pending (h : (c.cancel policy env dedupeKey asOf).pending.lookup key = some entry) :
    c.pending.lookup key = some entry := by
  unfold cancel at h
  simp only at h
  split at h
  · exact h
  · exact lookup_of_erase h

@[simp]
theorem cancel_fields : (c.cancel policy env dedupeKey asOf).queue = c.queue ∧
    (c.cancel policy env dedupeKey asOf).generation = c.generation ∧
    (c.cancel policy env dedupeKey asOf).number = c.number ∧
    (c.cancel policy env dedupeKey asOf).clock = c.clock := by
  unfold cancel
  simp only
  split <;> exact ⟨rfl, rfl, rfl, rfl⟩

/-- What `resolve` does besides surfacing closed turns. -/
theorem resolve_closed (policy : Policy) (env : Env) (number : ℕ) (c : Coordinator)
    (dedupeKey : String) (asOf : Option ResolveAsOf) : ∃ closed : Coordinator, Frame c closed ∧
      (c.resolve policy env number dedupeKey asOf).1 = closed.cancel policy env dedupeKey asOf ∧
      ∀ record ∈ commits (c.resolve policy env number dedupeKey asOf).2, OfTurn c record := by
  have hclosed := flushClosed_frame policy env number (env.order (c.named dedupeKey)).val c
  refine ⟨_, hclosed.1, rfl, fun record hrecord => ?_⟩
  unfold resolve at hrecord
  rw [commits_append, commits_acknowledge, append_nil] at hrecord
  exact hclosed.2 record hrecord

theorem refreshedSince_congr (h : c'.entry dedupeKey = c.entry dedupeKey) :
    c'.refreshedSince (dedupeKey, none) asOf = c.refreshedSince (dedupeKey, none) asOf := by
  unfold refreshedSince
  rw [show c'.pending.lookup (dedupeKey, none) = c.pending.lookup (dedupeKey, none) from h]

theorem resolve_entry (policy : Policy) (env : Env) (number : ℕ) (c : Coordinator)
    (dedupeKey : String) (asOf : Option ResolveAsOf) :
    (c.resolve policy env number dedupeKey asOf).1.entry dedupeKey =
    if c.refreshedSince (dedupeKey, none) asOf then c.entry dedupeKey else none := by
  obtain ⟨closed, hframe, heq, -⟩ := resolve_closed policy env number c dedupeKey asOf
  rw [heq, cancel_entry, refreshedSince_congr (hframe.entry dedupeKey), hframe.entry]

theorem resolve_entry_ne {other : String} (h : other ≠ dedupeKey) :
    (c.resolve policy env number dedupeKey asOf).1.entry other = c.entry other := by
  obtain ⟨closed, hframe, heq, -⟩ := resolve_closed policy env number c dedupeKey asOf
  have hne : ((other, none) : PendingKey) ≠ (dedupeKey, none) := fun h' => h (Prod.mk.inj h').1
  rw [heq, ← hframe.entry]
  exact cancel_lookup hne

theorem resolve_fields : (c.resolve policy env number dedupeKey asOf).1.clock = c.clock ∧
    (c.resolve policy env number dedupeKey asOf).1.number = c.number := by
  obtain ⟨closed, hframe, heq, -⟩ := resolve_closed policy env number c dedupeKey asOf
  rw [heq, cancel_fields.2.2.1, cancel_fields.2.2.2, hframe.clock, hframe.number]
  exact ⟨rfl, rfl⟩

/-- A resolve that found no inbox record to cancel arms the suppression of the
next turn report. -/
theorem resolve_resolved (policy : Policy) (env : Env) (number : ℕ) (c : Coordinator)
    (dedupeKey : String) (asOf : Option ResolveAsOf) :
    (c.resolve policy env number dedupeKey asOf).1.recentlyResolvedTurns =
    if c.refreshedSince (dedupeKey, none) asOf = false ∧ (c.entry dedupeKey).bind (·.inbox) = none ∧
        isTurnDedupeKey dedupeKey = true then
      Function.update
      (pruneRecentlyResolvedTurns c.recentlyResolvedTurns env.now policy.debounce) dedupeKey
        (some ((asOf.map (·.monotonic)).getD env.now))
    else c.recentlyResolvedTurns := by
  obtain ⟨closed, hframe, heq, -⟩ := resolve_closed policy env number c dedupeKey asOf
  rw [heq, ← refreshedSince_congr (hframe.entry dedupeKey), ← hframe.entry, ← hframe.resolved]
  unfold cancel
  simp only
  rw [show closed.pending.lookup (dedupeKey, none) = closed.entry dedupeKey from rfl]
  cases closed.refreshedSince (dedupeKey, none) asOf with
  | true => simp
  | false =>
    cases (closed.entry dedupeKey).bind (·.inbox) <;> cases isTurnDedupeKey dedupeKey <;> simp

theorem resolve_timers (other : String) :
    (c.resolve policy env number dedupeKey asOf).1.timers other = c.timers other := by
  obtain ⟨closed, hframe, heq, -⟩ := resolve_closed policy env number c dedupeKey asOf
  rw [heq, ← hframe.timers, timers, cancel_fields.1, timers]

/-! A timer of another key leaves the key alone. -/

variable {now : ℕ}

theorem take_timers_ne (h : key ≠ (dedupeKey, none)) :
    (c.take now key number).timers dedupeKey = c.timers dedupeKey := by
  unfold take timers
  induction c.queue with
  | nil => rfl
  | cons timer queue ih =>
    by_cases hdue : due key number now timer
    · have hne : timer.token.key ≠ (dedupeKey, none) := by
        intro hkey
        simp only [due, Bool.and_eq_true, decide_eq_true_eq] at hdue
        exact h (hdue.1.1.symm.trans hkey)
      rw [eraseP_cons_of_pos hdue, filter_cons_of_neg (by simpa using hne)]
    · rw [eraseP_cons_of_neg (by simpa using hdue), filter_cons, filter_cons, ih]

theorem token_key
    (htimer : c.queue.find? (due key number now) = some timer) : timer.token.key = key := by
  have hdue := find?_some htimer
  simp only [due, Bool.and_eq_true, decide_eq_true_eq] at hdue
  exact hdue.1.1

/-- The timer that expires is one of its key, and is gone afterwards. -/
theorem take_timers (htimer : c.queue.find? (due (dedupeKey, none) number now) = some timer) :
    timer.token.key = (dedupeKey, none) ∧ timer.number = number ∧ timer.deadline ≤ now ∧
      ∃ before after, c.timers dedupeKey = before ++ timer :: after ∧
        (c.take now (dedupeKey, none) number).timers dedupeKey = before ++ after := by
  obtain ⟨hdue, before, after, hqueue, hbefore⟩ := find?_eq_some_iff_append.mp htimer
  have herase : c.queue.eraseP (due (dedupeKey, none) number now) = before ++ after := by
    rw [hqueue, eraseP_append_right _ (by simpa using hbefore), eraseP_cons_of_pos hdue]
  simp only [due, Bool.and_eq_true, decide_eq_true_eq] at hdue
  refine ⟨hdue.1.1, hdue.1.2, hdue.2, before.filter fun t => t.token.key = (dedupeKey, none),
    after.filter fun t => t.token.key = (dedupeKey, none), ?_, ?_⟩
  · rw [timers, hqueue, filter_append, filter_cons_of_pos (by simpa using hdue.1.1)]
  · show (c.queue.eraseP (due (dedupeKey, none) number now)).filter _ = _
    rw [herase, filter_append]

/-! ### The flush of an entry that names no turn -/

variable {token : FlushToken}

/-- The guard of `flush`: the timer of the entry's generation flushes it, any
other does nothing. -/
theorem flush_guarded (policy : Policy) (env : Env) (number : ℕ) (c : Coordinator)
    (hkey : token.key = (dedupeKey, none)) :
    (∃ entry, c.entry dedupeKey = some entry ∧ entry.generation = token.generation ∧
      c.flush policy env number token = c.flushUnnamed env (dedupeKey, none) entry) ∨
    (∀ entry, c.entry dedupeKey = some entry → entry.generation ≠ token.generation) ∧
      c.flush policy env number token = (c, []) := by
  obtain ⟨key, generation⟩ := token
  obtain rfl : key = (dedupeKey, none) := hkey
  cases hentry : c.pending.lookup (dedupeKey, none) with
  | none =>
    refine .inr ⟨fun entry h => absurd (hentry.symm.trans h) nofun, ?_⟩
    rw [flush, hentry]
  | some entry =>
    rw [flush, hentry]
    by_cases hgeneration : entry.generation = generation
    · exact .inl ⟨entry, hentry, hgeneration, if_neg (not_not.mpr hgeneration)⟩
    · refine .inr ⟨fun other hother => ?_, if_pos hgeneration⟩
      rwa [← some.inj (hentry.symm.trans hother)]

/-- The flush of an entry that names no turn takes the entry out, or nothing. -/
theorem flush_unnamed (policy : Policy) (env : Env) (number : ℕ) (c : Coordinator)
    (h : token.key.2 = none) : (c.flush policy env number token).1 = c ∨
      (c.flush policy env number token).1 = { c with pending := c.pending.erase token.key } := by
  unfold flush
  split
  · exact .inl rfl
  · split
    · exact .inl rfl
    · rw [h]
      exact .inr rfl

/-- A flush leaves the entries of other keys alone. -/
theorem flush_entry_ne (h : token.key ≠ (dedupeKey, none)) :
    (c.flush policy env number token).1.entry dedupeKey = c.entry dedupeKey := by
  by_cases hkey : token.key.2 = none
  · rcases flush_unnamed policy env number c hkey with heq | heq <;> rw [heq]
    exact lookup_erase_ne (Ne.symm h)
  · exact (flush_frame hkey).1.entry dedupeKey

/-- It arms no timer for an entry that names no turn. -/
theorem flush_shrinks (policy : Policy) (env : Env) (number : ℕ) (c : Coordinator)
    (token : FlushToken) : Shrinks c (c.flush policy env number token).1 := by
  by_cases hkey : token.key.2 = none
  · rcases flush_unnamed policy env number c hkey with heq | heq <;> rw [heq]
    · exact {}
    · exact { pending := lookup_of_erase }
  · exact (flush_frame hkey).1.toShrinks

theorem flush_fields (token : FlushToken) : (c.flush policy env number token).1.clock = c.clock ∧
    (c.flush policy env number token).1.number = c.number ∧
    (c.flush policy env number token).1.recentlyResolvedTurns = c.recentlyResolvedTurns := by
  by_cases hkey : token.key.2 = none
  · rcases flush_unnamed policy env number c hkey with heq | heq <;> rw [heq] <;> exact ⟨rfl, rfl,
      rfl⟩
  · have hframe : Frame c (c.flush policy env number token).1 := (flush_frame hkey).1
    exact ⟨hframe.clock, hframe.number, hframe.resolved⟩

theorem flush_timers (token : FlushToken) :
    (c.flush policy env number token).1.timers dedupeKey = c.timers dedupeKey :=
  (flush_shrinks policy env number c token).timers dedupeKey

theorem flushUnnamed_commits (key : PendingKey) : commits (c.flushUnnamed env key entry).2 =
    (entry.inbox.filter fun _ => !entry.repeatsReportedTurn env).toList := by
  unfold flushUnnamed
  rw [commits_append, commits_inbox, commits_signal, append_nil]

end Coordinator

/-! ### What every run keeps -/

/-- A record belongs under a key. -/
structure Fits (key : PendingKey) (record : NotificationRecord) : Prop where
  dedupeKey : record.dedupeKey = some key.1
  valid : validateReservedDedupeKey record.sessionId record.kind record.dedupeKey = .ok ()
  ofTurn : key.2 ≠ none → record.kind = .turnCompleted

variable {deferred : DeferredNotification}

theorem DeferredNotification.fits {dedupeKey : String}
    (h : deferred.record.dedupeKey = some dedupeKey) :
    Fits (dedupeKey, deferred.turn) deferred.record :=
  ⟨h, deferred.valid, deferred.ofTurn⟩

theorem prefer_cases (existing : Option NotificationRecord) (incoming : NotificationRecord) :
    existing = some (prefer existing incoming) ∨ prefer existing incoming = incoming := by
  unfold prefer
  split
  · split
    · exact .inl rfl
    · exact .inr rfl
  · exact .inr rfl

/-- The inbox record after a merge was there before, or is the merged one. -/
theorem Pending.merge_inbox {existing : Option Pending} {inbox : Bool}
    {generation : ℕ}
    (h : (Pending.merge policy existing deferred inbox generation).inbox = some record) :
    existing.bind (·.inbox) = some record ∨ record = deferred.record := by
  unfold merge at h
  simp only at h
  split at h
  · cases h
    exact prefer_cases _ _
  · exact .inl h

structure Ok (policy : Policy) (c : Coordinator) : Prop where
  /-- The timers of a key, in the order they were armed. -/
  ordered : ∀ dedupeKey, (c.timers dedupeKey).Pairwise fun timer later =>
    timer.number < later.number ∧ timer.token.generation < later.token.generation
  bounded : ∀ dedupeKey, ∀ timer ∈ c.timers dedupeKey,
    timer.number ≤ c.number ∧ timer.token.generation ≤ c.generation
  armed : ∀ {dedupeKey entry}, c.entry dedupeKey = some entry →
    ∃ timer ∈ c.timers dedupeKey, timer.token.generation = entry.generation
  filed : ∀ {key entry record}, c.pending.lookup key = some entry → entry.inbox = some record →
    Fits key record
  window : ∀ {dedupeKey entry}, c.entry dedupeKey = some entry →
    entry.repeatWindow = policy.repeatWindow

variable {c : Coordinator} {dedupeKey : String}

namespace Ok

/-- Two timers of a key are of the same command just when they are of the same
generation. -/
theorem number_eq_iff (h : Ok policy c) {other : Timer} (htimer : timer ∈ c.timers dedupeKey)
    (hother : other ∈ c.timers dedupeKey) :
    timer.number = other.number ↔ timer.token.generation = other.token.generation := by
  have hiff : (c.timers dedupeKey).Pairwise fun timer other : Timer =>
      (timer.number = other.number ↔ timer.token.generation = other.token.generation) :=
    (h.ordered dedupeKey).imp fun hlt => by omega
  have hsymm : Std.Symm fun timer other : Timer =>
      (timer.number = other.number ↔ timer.token.generation = other.token.generation) :=
    ⟨fun _ _ hiff => by omega⟩
  have hall := hiff.forall_of_forall fun _ _ => by simp
  exact hall htimer hother

/-- A command armed at most one timer of a key. -/
theorem eq_of_number (h : Ok policy c) {other : Timer} (htimer : timer ∈ c.timers dedupeKey)
    (hother : other ∈ c.timers dedupeKey) (hnumber : timer.number = other.number) :
    timer = other := by
  by_contra hne
  have hdistinct : (c.timers dedupeKey).Pairwise fun timer other : Timer => timer.number ≠
    other.number :=
    (h.ordered dedupeKey).imp fun hlt => hlt.1.ne
  have hsymm : Std.Symm fun timer other : Timer => timer.number ≠ other.number :=
    ⟨fun _ _ => Ne.symm⟩
  exact hdistinct.forall htimer hother hne hnumber

theorem new : Ok policy .new where
  ordered _ := List.Pairwise.nil
  bounded _ := by simp [Coordinator.timers, Coordinator.new]
  armed := by simp [Coordinator.entry, Coordinator.new]
  filed := by simp [Coordinator.new]
  window := by simp [Coordinator.entry, Coordinator.new]

end Ok

/-- What the expiry of a timer does to its key: the current timer flushes the
entry, a stale one does nothing. -/
theorem Handled.expired (h : Handled policy c env (.expire (dedupeKey, none) number) result)
    (hok : Ok policy c) :
    ∃ timer ∈ c.timers dedupeKey, timer.number = number ∧ timer.deadline ≤ env.now ∧
      (∀ other t, t ∈ result.1.timers other ↔ t ∈ c.timers other ∧
      ¬ (other = dedupeKey ∧ t.number = number)) ∧
      (∀ other, other ≠ dedupeKey → result.1.entry other = c.entry other) ∧
      ((∃ entry, c.entry dedupeKey = some entry ∧ entry.generation = timer.token.generation ∧
          result.1.entry dedupeKey = none ∧
          commits result.2 = (entry.inbox.filter fun _ => !entry.repeatsReportedTurn env).toList) ∨
        ((∀ entry, c.entry dedupeKey = some entry → entry.generation ≠ timer.token.generation) ∧
          result.1.entry dedupeKey = c.entry dedupeKey ∧ commits result.2 = [])) := by
  obtain ⟨timer, htimer, rfl⟩ := h.expire_inv
  obtain ⟨htoken, hnumber, hdeadline, before, after, hbefore, hafter⟩ := take_timers htimer
  have hmem : timer ∈ c.timers dedupeKey := by simp [hbefore]
  refine ⟨timer, hmem, hnumber, hdeadline, fun other t => ?_, fun other hother => ?_, ?_⟩
  · rw [flush_timers]
    by_cases hother : other = dedupeKey
    · subst hother
      -- the other timers of the key are of other commands
      have hnodup : (before ++ timer :: after).Nodup := by
        rw [← hbefore]
        exact (hok.ordered other).imp fun hlt heq => by simp [heq] at hlt
      have hne : t ∈ c.timers other → (t.number = number ↔ t = timer) := fun ht =>
        ⟨fun heq => hok.eq_of_number ht hmem (heq.trans hnumber.symm), fun heq => heq ▸ hnumber⟩
      grind
    · have hne : ((dedupeKey, none) : PendingKey) ≠ (other, none) :=
        fun heq => hother (Prod.mk.inj heq).1.symm
      rw [take_timers_ne hne]
      simp [hother]
  · have hne : timer.token.key ≠ (other, none) :=
      fun heq => hother (Prod.mk.inj (heq.symm.trans htoken)).1
    rw [flush_entry_ne hne]
    rfl
  · rcases flush_guarded policy env number (c.take env.now (dedupeKey, none) number) htoken with
      ⟨entry, hentry, hgeneration, heq⟩ | ⟨hstale, heq⟩ <;> rw [heq]
    · exact .inl ⟨entry, hentry, hgeneration, lookup_erase _ _, flushUnnamed_commits _⟩
    · exact .inr ⟨hstale, rfl, rfl⟩

namespace Ok

/-- Entries and timers may go, as long as the timer of an entry stays. -/
theorem thin (h : Ok policy c) (htimers : ∀ k, (c'.timers k).Sublist (c.timers k))
    (hgeneration : c.generation ≤ c'.generation) (hnumber : c.number ≤ c'.number)
    (hpending : ∀ {key entry}, c'.pending.lookup key = some entry →
      c.pending.lookup key = some entry) (harmed : ∀ {k entry}, c'.entry k = some entry →
      ∃ timer ∈ c'.timers k, timer.token.generation = entry.generation) : Ok policy c' where
  ordered k := (h.ordered k).sublist (htimers k)
  bounded k timer htimer := by
    obtain ⟨h1, h2⟩ := h.bounded k timer ((htimers k).subset htimer)
    exact ⟨h1.trans hnumber, h2.trans hgeneration⟩
  armed := harmed
  filed hl := h.filed (hpending hl)
  window he := h.window (hpending he)

/-- Entries may go where the timers stay. -/
theorem shrink (h : Ok policy c) (hs : Shrinks c c') : Ok policy c' :=
  h.thin (fun k => (hs.timers k).symm ▸ List.Sublist.refl _) hs.generation.ge
    hs.number.ge hs.pending fun {k _} he => by rw [hs.timers k]; exact h.armed (hs.pending he)

section

variable (h : Ok policy c)
include h

theorem arrive {now number : ℕ} (hnumber : c.number < number) : Ok policy (c.arrive now number) :=
  h.thin (fun _ => List.Sublist.refl _) le_rfl hnumber.le id h.armed

theorem consumed :
    Ok policy (c.consumed policy env dedupeKey deferred) :=
  h.shrink {}

theorem resolve {asOf : Option ResolveAsOf} :
    Ok policy (c.resolve policy env number dedupeKey asOf).1 := by
  obtain ⟨closed, hframe, heq, -⟩ := resolve_closed policy env number c dedupeKey asOf
  rw [heq]
  obtain ⟨hqueue, hgeneration, hnumber, -⟩ := closed.cancel_fields
  exact (h.shrink hframe.toShrinks).shrink
    ⟨fun k => by rw [timers, hqueue, timers], hgeneration, hnumber, cancel_pending⟩

theorem hold {key : PendingKey} {inbox : Bool}
    (hnumber : c.number = number) (hfresh : ∀ k, ∀ timer ∈ c.timers k, timer.number < number)
    (hfits : Fits key deferred.record) :
    Ok policy (c.hold policy env number key deferred inbox) where
  ordered k := by
    by_cases hkey : key = (k, none)
    · rw [timers, hold_queue, filter_append]
      split
      · refine pairwise_append.mpr ⟨h.ordered k, (pairwise_singleton _ _).filter _, ?_⟩
        intro timer htimer new hnew
        obtain rfl := mem_singleton.mp (mem_filter.mp hnew).1
        exact ⟨hfresh k timer htimer, Nat.lt_succ_of_le (h.bounded k timer htimer).2⟩
      · rw [filter_nil, append_nil]
        exact h.ordered k
    · rw [hold_timers hkey]
      exact h.ordered k
  bounded k timer htimer := by
    rw [hold_fields.1, hold_generation]
    rcases timer_of_hold htimer with hold | ⟨harmed, rfl⟩
    · obtain ⟨h1, h2⟩ := h.bounded k timer hold
      exact ⟨h1, by split <;> omega⟩
    · rw [if_pos harmed]
      exact ⟨hnumber.ge, le_rfl⟩
  armed {k entry} he := by
    rw [timers, hold_queue, filter_append]
    rw [Coordinator.entry, Coordinator.hold_pending] at he
    by_cases hkey : key = (k, none)
    · rw [hkey, lookup_insert] at he
      have hgeneration : entry.generation = c.nextGeneration (k, none) inbox := by
        rw [← some.inj he]; rfl
      cases hkept : c.keptGeneration (k, none) inbox with
      | none =>
        rw [hkey, hkept]
        refine ⟨⟨⟨(k, none), c.generation + 1⟩, env.now + policy.debounce, number⟩, by simp, ?_⟩
        rw [hgeneration, nextGeneration, hkept]
        rfl
      | some generation =>
        obtain ⟨-, existing, hexisting, -, hsame⟩ := keptGeneration_eq_some hkept
        obtain ⟨timer, htimer, hmatch⟩ := h.armed hexisting
        refine ⟨timer, mem_append_left _ htimer, ?_⟩
        rw [hgeneration, nextGeneration, hkept, hmatch, hsame]
        rfl
    · rw [lookup_insert_ne (Ne.symm hkey)] at he
      obtain ⟨timer, htimer, hmatch⟩ := h.armed he
      exact ⟨timer, mem_append_left _ htimer, hmatch⟩
  filed {other entry record} hl hinbox := by
    by_cases hkey : other = key
    · rw [hkey] at hl ⊢
      rw [hold_pending, lookup_insert] at hl
      cases hl
      rcases Pending.merge_inbox hinbox with hbefore | rfl
      · obtain ⟨existing, hexisting, hrecord⟩ := bind_eq_some_iff.mp hbefore
        exact h.filed hexisting hrecord
      · exact hfits
    · rw [hold_lookup_ne hkey] at hl
      exact h.filed hl hinbox
  window {k entry} he := by
    rw [Coordinator.entry, Coordinator.hold_pending] at he
    by_cases hkey : ((k, none) : PendingKey) = key
    · rw [← hkey, lookup_insert] at he
      rw [← some.inj he]
      rfl
    · rw [lookup_insert_ne hkey] at he
      exact h.window he

theorem defer {now number : ℕ} (hnumber : c.number < number) (deferred : DeferredNotification) :
    Ok policy ((c.arrive now number).defer policy env number deferred).1 := by
  have harrived : Ok policy (c.arrive now number) := h.arrive hnumber
  cases hkey : deferred.record.dedupeKey with
  | none =>
    rw [defer_keyless hkey]
    exact harrived
  | some dedupeKey =>
    rw [defer_key hkey]
    split
    · exact harrived.consumed
    · refine harrived.consumed.hold rfl (fun k timer htimer => ?_) (deferred.fits hkey)
      exact ((h.bounded k timer htimer).1).trans_lt hnumber

theorem expire {key : PendingKey} (hhandled : Handled policy c env (.expire key number) result) :
    Ok policy result.1 := by
  obtain ⟨timer, htimer, hresult⟩ := hhandled.expire_inv
  have hflush := flush_shrinks policy env number (c.take env.now key number) timer.token
  rw [← hresult] at hflush
  refine h.thin (fun k => ?_) hflush.generation.ge hflush.number.ge hflush.pending
    fun {k entry} he => ?_
  · rw [hflush.timers]
    exact eraseP_sublist.filter _
  · obtain ⟨own, hown, hgeneration⟩ := h.armed (hflush.pending he)
    refine ⟨own, ?_, hgeneration⟩
    by_cases hkey : key = (k, none)
    · -- the timer that expired was not that of the entry
      subst hkey
      obtain ⟨expired, hexpired, hnumber, -, htimers, -,
        ⟨-, -, -, hnone, -⟩ | ⟨hstale, hsame, -⟩⟩ := hhandled.expired h
      · exact absurd (hnone.symm.trans he) nofun
      · refine (htimers k own).mpr ⟨hown, fun ⟨_, heq⟩ => hstale entry (hsame ▸ he) ?_⟩
        rw [← hgeneration, (h.number_eq_iff hown hexpired).mp (heq.trans hnumber.symm)]
    · rw [hflush.timers, take_timers_ne hkey]
      exact hown

theorem step {event : Event}
    (hhandled : Handled policy c env event result) : Ok policy result.1 := by
  cases hhandled with
  | defer hnumber deferred => exact h.defer hnumber deferred
  | resolve hnumber dedupeKey asOf => exact (h.arrive hnumber).resolve
  | expire htimer => exact h.expire (.expire htimer)

end

/-- **Every reachable state is in order.** -/
theorem run {tr : Trace} (h : Run (StepOf (handle policy)) .new tr c) :
    Ok policy c :=
  h.invariant Ok.new fun ht hstep => ht.step (handle_eq_some_iff.mp hstep).2

end Ok

/-! ### Timers expire once -/

section Timers

variable {c : Coordinator} {event : Event} {result : Coordinator × List Effect} {dedupeKey : String}

theorem defer_number (deferred : DeferredNotification) :
    (c.defer policy env number deferred).1.number = c.number := by
  cases hkey : deferred.record.dedupeKey with
  | none => rw [defer_keyless hkey]
  | some dedupeKey =>
    rw [defer_key hkey]
    split
    · rfl
    · exact hold_fields.1

theorem Handled.number_le (h : Handled policy c env event result) : c.number ≤ result.1.number := by
  cases h with
  | defer hnumber deferred =>
    rw [defer_number]
    exact hnumber.le
  | resolve hnumber dedupeKey asOf =>
    rw [resolve_fields.2]
    exact hnumber.le
  | expire htimer =>
    rw [(flush_fields _).2.1]
    exact le_rfl

/-- A timer of a key was there before, or is of the command just handled. -/
theorem Handled.timer_mem (h : Handled policy c env event result)
    (htimer : timer ∈ result.1.timers dedupeKey) : timer ∈ c.timers dedupeKey ∨
    c.number < timer.number := by
  cases h with
  | @defer number hnumber deferred =>
    cases hkey : deferred.record.dedupeKey with
    | none =>
      rw [defer_keyless hkey] at htimer
      exact .inl htimer
    | some key =>
      rw [defer_key hkey] at htimer
      split at htimer
      · exact .inl htimer
      · rcases timer_of_hold htimer with hold | ⟨-, rfl⟩
        · exact .inl hold
        · exact .inr hnumber
  | resolve hnumber key asOf =>
    rw [resolve_timers] at htimer
    exact .inl htimer
  | @expire number key expired hfind =>
    rw [flush_timers] at htimer
    exact .inl ((eraseP_sublist.filter _).subset htimer)

/-- **A timer that expired is never in the queue again.** -/
theorem expired_gone {tr : Trace} (h : Run (StepOf (handle policy)) .new tr c)
    {l : Label Input (List Effect)} (hl : l ∈ tr)
    (hevent : l.call.event = .expire (dedupeKey, none) number) :
    number ≤ c.number ∧ ∀ timer ∈ c.timers dedupeKey, timer.number ≠ number := by
  revert l
  refine h.history
    (I := fun tr c => ∀ {l}, l ∈ tr → l.call.event = .expire (dedupeKey, none) number →
      number ≤ c.number ∧ ∀ timer ∈ c.timers dedupeKey, timer.number ≠ number) (by simp) ?_
  intro tr t m u hrun ht hstep l hl hevent
  have hhandled := (handle_eq_some_iff.mp hstep).2
  have hle := hhandled.number_le
  rcases mem_append.mp hl with hl | hl
  · obtain ⟨h1, h2⟩ := ht hl hevent
    refine ⟨h1.trans hle, fun timer htimer heq => ?_⟩
    rcases hhandled.timer_mem htimer with hold | hnew
    · exact h2 timer hold heq
    · omega
  · obtain rfl := mem_singleton.mp hl
    rw [hevent] at hhandled
    obtain ⟨expired, hexpired, hnumber, -, htimers, -⟩ := hhandled.expired (Ok.run hrun)
    have hbounded := ((Ok.run hrun).bounded dedupeKey expired hexpired).1
    exact ⟨(hnumber ▸ hbounded).trans hle,
      fun timer htimer heq => ((htimers _ _).mp htimer).2 ⟨rfl, heq⟩⟩

end Timers

end Pohunek.Attention
