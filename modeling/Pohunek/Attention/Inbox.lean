/-
# Creates that add nothing to the inbox

Two runs of the coordinator are compared: one with all commands, and one
without the creates the policy keeps out of the inbox and without the timers
these armed. Inbox and signal records share one pending entry, one timer and
one contribution time, so the two runs are not equal; `Twin` says what of them
agrees: the inbox record of each key, the timers of the commands both have,
and for a key with an inbox record which command's timer is the current one.

The contribution time is where the runs come apart: a create that adds nothing
to the inbox still makes its entry newer for a resolve as of an earlier moment
(`Undisturbed` says where this makes no difference).
-/
import Pohunek.Attention.Debounce

namespace Pohunek.Attention

open Notifications Turns Runs Coordinator List Event Option

/-! ### Deleting commands -/

/-- The number of a create that adds nothing to the inbox. -/
def Event.signalOnly : Event → Option ℕ
  | .defer number deferred => if deferred.inbox then none else some number
  | _ => none

/-- The numbers of the creates that add nothing to the inbox. -/
def signalOnly (inputs : List Input) :
    List ℕ := inputs.filterMap fun input => input.event.signalOnly

/-- What stays once these creates, and the timers they armed, are gone. -/
def Event.stays (silent : List ℕ) : Event → Bool
  | .defer _ deferred => deferred.inbox
  | .resolve _ _ _ => true
  | .expire _ number => number ∉ silent

def withoutSignalOnly (inputs : List Input) : List Input :=
  inputs.filter fun input => input.event.stays (signalOnly inputs)

theorem signalOnly_snoc (inputs : List Input) (input : Input) :
    signalOnly (inputs ++ [input]) = signalOnly inputs ++ input.event.signalOnly.toList := by
  unfold signalOnly
  cases h : input.event.signalOnly <;> simp [h]

/-- The next input decides about itself alone, when no timer of its number
has expired yet. -/
theorem withoutSignalOnly_snoc {inputs : List Input} {input : Input}
    (hfresh : ∀ number, input.event.signalOnly = some number → ∀ earlier ∈ inputs, ∀ key,
      earlier.event ≠ .expire key number) :
    withoutSignalOnly (inputs ++ [input]) =
      withoutSignalOnly inputs ++ if input.event.stays (signalOnly inputs) then [input]
      else [] := by
  unfold withoutSignalOnly
  rw [filter_append, signalOnly_snoc]
  congr 1
  · refine filter_congr fun earlier hearlier => ?_
    cases hevent : earlier.event with
    | defer number deferred => rfl
    | resolve number dedupeKey asOf => rfl
    | expire key number =>
      cases hsilent : input.event.signalOnly with
      | none => simp [stays]
      | some fresh =>
        have hne : number ≠ fresh :=
          fun heq => hfresh fresh hsilent earlier hearlier key (heq ▸ hevent)
        simp [stays, hne]
  · cases hevent : input.event with
    | defer number deferred => cases hinbox : deferred.inbox <;> simp [hevent, stays, hinbox]
    | resolve number dedupeKey asOf => simp [hevent, stays]
    | expire key number =>
      by_cases h : number ∈ signalOnly inputs <;> simp [hevent, Event.stays, Event.signalOnly, h]

/-! ### Runs in which no record names a turn -/

/-- Nothing of a turn is pending or armed. -/
structure Plain (c : Coordinator) : Prop where
  pending : ∀ {key entry}, c.pending.lookup key = some entry → key.2 = none
  queue : ∀ timer ∈ c.queue, timer.token.key.2 = none

def Event.Plain : Event → Prop
  | .defer _ deferred => deferred.turn = none
  | _ => True

variable {policy : Policy} {env : Env}

variable {c : Coordinator}

theorem Plain.not_ofTurn (h : Plain c) (record : NotificationRecord) : ¬ OfTurn c record := by
  rintro ⟨key, entry, hkey, hentry, -⟩
  exact hkey (h.pending hentry)

theorem Plain.expire_key (h : Plain c) {key : PendingKey} {number now : ℕ} {timer : Timer}
    (htimer : c.queue.find? (Timer.due key number now) = some timer) : key.2 = none :=
  token_key htimer ▸ h.queue timer (mem_of_find?_eq_some htimer)

theorem Plain.hold (h : Plain c) (number : ℕ) (dedupeKey : String) (deferred : DeferredNotification)
    (inbox : Bool) : Plain (c.hold policy env number (dedupeKey, none) deferred inbox) where
  pending {key entry} hentry := by
    by_cases hkey : key = (dedupeKey, none)
    · rw [hkey]
    · rw [hold_lookup_ne hkey] at hentry
      exact h.pending hentry
  queue timer htimer := by
    rw [hold_queue] at htimer
    rcases mem_append.mp htimer with htimer | htimer
    · exact h.queue timer htimer
    · split at htimer
      · rw [mem_singleton.mp htimer]
      · simp at htimer

theorem Plain.resolve (h : Plain c) (number : ℕ) (dedupeKey : String) (asOf : Option ResolveAsOf) :
    Plain (c.resolve policy env number dedupeKey asOf).1 := by
  -- no entry names a turn, so nothing surfaces
  have hnamed : c.named dedupeKey = [] := by
    unfold named
    rw [map_eq_nil_iff, filter_eq_nil_iff]
    rintro ⟨key, entry⟩ hmem hnamed
    have hlookup : c.pending.lookup key = some entry := AList.mem_lookup_iff.mpr hmem
    simp [h.pending hlookup] at hnamed
  have hclosed : (env.order (c.named dedupeKey)).val = [] :=
    perm_nil.mp ((env.order (c.named dedupeKey)).property.trans (.of_eq hnamed))
  have heq : (c.resolve policy env number dedupeKey asOf).1 =
    c.cancel policy env dedupeKey asOf := by
    unfold Coordinator.resolve
    rw [hclosed]
    rfl
  rw [heq]
  exact ⟨fun hentry => h.pending (cancel_pending hentry), fun timer htimer =>
    h.queue timer (by rwa [cancel_fields.1] at htimer)⟩

theorem Plain.step {event : Event} {result : Coordinator × List Effect} (h : Plain c)
    (hevent : event.Plain) (hhandled : Handled policy c env event result) : Plain result.1 := by
  cases hhandled with
  | @defer number _ deferred =>
    have harrived : Plain (c.arrive env.now number) := ⟨h.pending, h.queue⟩
    cases hkey : deferred.record.dedupeKey with
    | none =>
      rw [defer_keyless hkey]
      exact harrived
    | some dedupeKey =>
      have hturn : deferred.turn = none := hevent
      have hconsumed : Plain ((c.arrive env.now number).consumed policy env dedupeKey deferred) :=
        ⟨harrived.pending, harrived.queue⟩
      rw [defer_key hkey, hturn]
      split
      · exact hconsumed
      · exact hconsumed.hold number dedupeKey deferred _
  | @resolve number _ dedupeKey asOf =>
    have harrived : Plain (c.arrive env.now number) := ⟨h.pending, h.queue⟩
    exact harrived.resolve number dedupeKey asOf
  | @expire number key timer htimer =>
    have htaken : Plain (c.take env.now key number) :=
      ⟨h.pending, fun other hother => h.queue other (mem_of_mem_eraseP hother)⟩
    have hkey : timer.token.key.2 = none := h.queue timer (mem_of_find?_eq_some htimer)
    rcases flush_unnamed policy env number (c.take env.now key number) hkey with heq | heq <;>
      rw [heq]
    · exact htaken
    · exact ⟨fun hentry => h.pending (lookup_of_erase hentry), htaken.queue⟩

/-! ### What the two runs have in common -/

/-- A timer of the key, by the command that armed it and its deadline. -/
def Armed (c : Coordinator) (dedupeKey : String) (number deadline : ℕ) : Prop :=
  ∃ timer ∈ c.timers dedupeKey, timer.number = number ∧ timer.deadline = deadline

/-- The command that armed the current timer of the key. -/
def CurrentBy (c : Coordinator) (dedupeKey : String) (number : ℕ) : Prop :=
  ∃ entry, c.entry dedupeKey = some entry ∧ ∃ timer ∈ c.timers dedupeKey,
    timer.token.generation = entry.generation ∧ timer.number = number

/-- The inbox record of the key. -/
def Coordinator.inbox (c : Coordinator) (dedupeKey : String) : Option NotificationRecord :=
  (c.entry dedupeKey).bind (·.inbox)

/-- What the two runs have in common of a key; `silent` are the numbers of the
commands that only the first one has. -/
structure TwinAt (silent : List ℕ) (c c' : Coordinator) (dedupeKey : String) : Prop where
  inbox : c.inbox dedupeKey = c'.inbox dedupeKey
  armed : ∀ number deadline, number ∉ silent →
    (Armed c dedupeKey number deadline ↔ Armed c' dedupeKey number deadline)
  loud : ∀ timer ∈ c'.timers dedupeKey, timer.number ∉ silent
  current : c.inbox dedupeKey ≠ none → ∃ number, CurrentBy c dedupeKey number ∧
    CurrentBy c' dedupeKey number

/-- The state of the run with all commands, and of the one without those that
add nothing to the inbox. -/
structure Twin (policy : Policy) (silent : List ℕ) (c c' : Coordinator) : Prop where
  clock : c'.clock ≤ c.clock
  number : c'.number ≤ c.number
  heard : ∀ number ∈ silent, number ≤ c.number
  resolved : ∀ now, c.clock ≤ now →
    pruneRecentlyResolvedTurns c.recentlyResolvedTurns now policy.debounce =
    pruneRecentlyResolvedTurns c'.recentlyResolvedTurns now policy.debounce
  keys : ∀ dedupeKey, TwinAt silent c c' dedupeKey

/-! ### Recently resolved turns -/

theorem prune_prune {resolved : String → Option ℕ} {now later : ℕ} (h : now ≤ later)
    (debounce : ℕ) :
    pruneRecentlyResolvedTurns (pruneRecentlyResolvedTurns resolved now debounce) later debounce =
      pruneRecentlyResolvedTurns resolved later debounce := by
  funext key
  unfold pruneRecentlyResolvedTurns
  cases resolved key with
  | none => rfl
  | some resolvedAt =>
    by_cases hlater : later - resolvedAt ≤ debounce
    · have hnow : now - resolvedAt ≤ debounce := by omega
      simp [Option.filter, hnow]
    · by_cases hnow : now - resolvedAt ≤ debounce <;> simp [Option.filter, hnow, hlater]

/-! ### The current timer -/

section Current

variable {c : Coordinator} {dedupeKey : String} {number : ℕ}

/-- The guard of `flush`, by commands. -/
theorem CurrentBy.generation_iff (hok : Ok policy c) (h : CurrentBy c dedupeKey number)
    {entry : Pending} (hentry : c.entry dedupeKey = some entry) {timer : Timer}
    (htimer : timer ∈ c.timers dedupeKey) :
    entry.generation = timer.token.generation ↔ number = timer.number := by
  obtain ⟨own, hown, current, hcurrent, hgeneration, rfl⟩ := h
  obtain rfl : own = entry := some.inj (hown.symm.trans hentry)
  rw [← hgeneration]
  exact (hok.number_eq_iff hcurrent htimer).symm

theorem CurrentBy.congr {c' : Coordinator} (h : CurrentBy c dedupeKey number)
    (hentry : c'.entry dedupeKey = c.entry dedupeKey)
    (htimers : ∀ timer ∈ c.timers dedupeKey, timer.number = number → timer ∈ c'.timers dedupeKey) :
    CurrentBy c' dedupeKey number := by
  obtain ⟨entry, he, timer, htimer, hgeneration, hnumber⟩ := h
  exact ⟨entry, hentry.trans he, timer, htimers timer htimer hnumber, hgeneration, hnumber⟩

/-- The entry and the timers of the key are the same. -/
def SameAt (d c : Coordinator) (dedupeKey : String) : Prop :=
  d.entry dedupeKey = c.entry dedupeKey ∧ ∀ timer, timer ∈ d.timers dedupeKey ↔
    timer ∈ c.timers dedupeKey

theorem TwinAt.congr {silent : List ℕ} {c' d d' : Coordinator} (h : TwinAt silent c c' dedupeKey)
    (hd : SameAt d c dedupeKey := by exact ⟨rfl, fun _ => Iff.rfl⟩)
    (hd' : SameAt d' c' dedupeKey := by exact ⟨rfl, fun _ => Iff.rfl⟩) :
    TwinAt silent d d' dedupeKey where
  inbox := by
    unfold Coordinator.inbox
    rw [hd.1, hd'.1]
    exact h.inbox
  armed k deadline hk := by
    unfold Armed
    simp only [hd.2, hd'.2]
    exact h.armed k deadline hk
  loud timer htimer := h.loud timer ((hd'.2 timer).mp htimer)
  current hinbox := by
    unfold Coordinator.inbox at hinbox
    rw [hd.1] at hinbox
    obtain ⟨k, hk, hk'⟩ := h.current hinbox
    exact ⟨k, hk.congr hd.1 fun timer htimer _ => (hd.2 timer).mpr htimer,
      hk'.congr hd'.1 fun timer htimer _ => (hd'.2 timer).mpr htimer⟩

end Current

/-! ### A record is held -/

section Hold

variable {c : Coordinator} {dedupeKey : String} {number : ℕ} {deferred : DeferredNotification}
    {inbox : Bool}

theorem hold_inbox : (c.hold policy env number (dedupeKey, none) deferred inbox).inbox dedupeKey =
    if inbox then some (prefer (c.inbox dedupeKey) deferred.record) else c.inbox dedupeKey := by
  rw [Coordinator.inbox, Coordinator.hold_entry]
  rfl

theorem hold_same {other : String} (h : other ≠ dedupeKey) :
    SameAt (c.hold policy env number (dedupeKey, none) deferred inbox) c other := by
  refine ⟨hold_lookup_ne fun heq => h (Prod.mk.inj heq).1, fun timer => ?_⟩
  rw [hold_timers fun heq => h (Prod.mk.inj heq).1.symm]

theorem hold_armed {k : ℕ} {deadline : ℕ} :
    Armed (c.hold policy env number (dedupeKey, none) deferred inbox) dedupeKey k deadline ↔
      Armed c dedupeKey k deadline ∨ (inbox ∨ c.inbox dedupeKey = none) ∧ k = number ∧
        deadline = env.now + policy.debounce := by
  have hkept := keptGeneration_isNone c dedupeKey inbox
  unfold Armed
  simp only [mem_hold_timers, hkept]
  constructor
  · rintro ⟨timer, htimer | ⟨harmed, rfl⟩, hnumber, hdeadline⟩
    · exact .inl ⟨timer, htimer, hnumber, hdeadline⟩
    · exact .inr ⟨harmed, hnumber.symm, hdeadline.symm⟩
  · rintro (⟨timer, htimer, hboth⟩ | ⟨harmed, rfl, rfl⟩)
    · exact ⟨timer, .inl htimer, hboth⟩
    · exact ⟨_, .inr ⟨harmed, rfl⟩, rfl, rfl⟩

/-- A record for the inbox, or the first one of an entry, makes its own timer
the current one. -/
theorem hold_current_new (harms : inbox ∨ c.inbox dedupeKey = none) :
    CurrentBy (c.hold policy env number (dedupeKey, none) deferred inbox) dedupeKey number := by
  have hkept := (keptGeneration_isNone c dedupeKey inbox).mpr harms
  refine ⟨_, hold_entry .., _, mem_hold_timers.mpr (.inr ⟨hkept, rfl⟩), ?_, rfl⟩
  rw [nextGeneration, isNone_iff_eq_none.mp hkept]
  rfl

/-- Any other record leaves the current timer. -/
theorem hold_current_kept {k : ℕ} (hkeeps : ¬ (inbox ∨ c.inbox dedupeKey = none))
    (h : CurrentBy c dedupeKey k) :
    CurrentBy (c.hold policy env number (dedupeKey, none) deferred inbox) dedupeKey k := by
  have hsome : c.keptGeneration (dedupeKey, none) inbox ≠ none := fun hnone =>
    hkeeps ((keptGeneration_isNone c dedupeKey inbox).mp (by rw [hnone]; rfl))
  obtain ⟨generation, hgeneration⟩ := ne_none_iff_exists'.mp hsome
  obtain ⟨-, entry, hentry, -, hsame⟩ := keptGeneration_eq_some hgeneration
  obtain ⟨own, hown, timer, htimer, hmatch, hnumber⟩ := h
  obtain rfl : own = entry := some.inj (hown.symm.trans hentry)
  refine ⟨_, hold_entry .., timer, mem_hold_timers.mpr (.inl htimer), ?_, hnumber⟩
  rw [nextGeneration, hgeneration, hmatch, hsame]
  rfl

end Hold

/-! ### Creates in both runs -/

namespace Twin

variable {silent : List ℕ} {c c' : Coordinator} {dedupeKey : String} {number : ℕ}
    {deferred : DeferredNotification}

theorem new : Twin policy [] .new .new where
  clock := le_rfl
  number := le_rfl
  heard := by simp
  resolved _ _ := rfl
  keys _ := ⟨rfl, fun _ _ _ => Iff.rfl, by simp, fun h => absurd rfl h⟩

section

variable (h : Twin policy silent c c')
include h

theorem arrive (hclock : c.clock ≤ env.now) (hnumber : c.number < number) :
    Twin policy silent (c.arrive env.now number) (c'.arrive env.now number) :=
  { h with
    clock := le_rfl
    number := le_rfl
    heard := fun n hn => (h.heard n hn).trans hnumber.le
    resolved := fun now hnow => h.resolved now (hclock.trans hnow)
    keys := fun key => (h.keys key).congr }

/-- A command only the first run has. -/
theorem arrive_silent (hclock : c.clock ≤ env.now) (hnumber : c.number < number) :
    Twin policy silent (c.arrive env.now number) c' :=
  { h with
    clock := h.clock.trans hclock
    number := h.number.trans hnumber.le
    heard := fun n hn => (h.heard n hn).trans hnumber.le
    resolved := fun now hnow => h.resolved now (hclock.trans hnow)
    keys := fun key => (h.keys key).congr }

theorem accepts (hclock : c.clock ≤ env.now) (dedupeKey : String)
    (deferred : DeferredNotification) :
    c.accepts policy env dedupeKey deferred = c'.accepts policy env dedupeKey deferred := by
  unfold Coordinator.accepts
  rw [h.resolved env.now hclock]

theorem consumed (hclock : c.clock ≤ env.now) :
    Twin policy silent (c.consumed policy env dedupeKey deferred)
    (c'.consumed policy env dedupeKey deferred) :=
  { h with
    resolved := fun now _ => by
      unfold Coordinator.consumed
      rw [h.resolved env.now hclock]
    keys := fun key => (h.keys key).congr }

/-- A create that adds nothing to the inbox consumes nothing. -/
theorem consumed_silent (hclock : env.now ≤ c.clock) (hinbox : deferred.inbox = false) :
    Twin policy silent (c.consumed policy env dedupeKey deferred) c' :=
  { h with
    resolved := fun now hnow => by
      have hreport : deferred.namelessReport dedupeKey = false := by
        simp [DeferredNotification.namelessReport, hinbox]
      unfold Coordinator.consumed Coordinator.consume
      simp only [hreport, Bool.false_and, Bool.false_eq_true, if_false]
      rw [prune_prune (hclock.trans hnow), h.resolved now hnow]
    keys := fun key => (h.keys key).congr }

theorem hold (hnumber : number ∉ silent) (inbox : Bool) :
    Twin policy silent (c.hold policy env number (dedupeKey, none) deferred inbox)
      (c'.hold policy env number (dedupeKey, none) deferred inbox) where
  clock := by simpa using h.clock
  number := by simpa using h.number
  heard := by simpa using h.heard
  resolved := by simpa using h.resolved
  keys other := by
    by_cases hother : other = dedupeKey
    · subst hother
      have hkey := h.keys other
      refine ⟨?_, fun k deadline hk => ?_, fun timer htimer => ?_, fun hinbox => ?_⟩
      · rw [hold_inbox, hold_inbox, hkey.inbox]
      · rw [hold_armed, hold_armed, hkey.armed k deadline hk, hkey.inbox]
      · rcases mem_hold_timers.mp htimer with htimer | ⟨-, rfl⟩
        · exact hkey.loud timer htimer
        · exact hnumber
      · by_cases harms : inbox ∨ c.inbox other = none
        · exact ⟨number, hold_current_new harms, hold_current_new (hkey.inbox ▸ harms)⟩
        · obtain ⟨k, hk, hk'⟩ := hkey.current fun hnone => harms (.inr hnone)
          exact ⟨k, hold_current_kept harms hk, hold_current_kept (hkey.inbox ▸ harms) hk'⟩
    · exact (h.keys other).congr (hold_same hother) (hold_same hother)

/-- A create that adds nothing to the inbox leaves what the runs share. -/
theorem hold_silent (hnumber : number ∈ silent) :
    Twin policy silent (c.hold policy env number (dedupeKey, none) deferred false) c' where
  clock := by simpa using h.clock
  number := by simpa using h.number
  heard := by simpa using h.heard
  resolved := by simpa using h.resolved
  keys other := by
    by_cases hother : other = dedupeKey
    · subst hother
      have hkey := h.keys other
      refine ⟨?_, fun k deadline hk => ?_, hkey.loud, fun hinbox => ?_⟩
      · rw [hold_inbox, if_neg Bool.false_ne_true, hkey.inbox]
      · have hne : k ≠ number := fun heq => hk (heq ▸ hnumber)
        rw [hold_armed, ← hkey.armed k deadline hk]
        exact or_iff_left fun hnew => hne hnew.2.1
      · rw [hold_inbox, if_neg Bool.false_ne_true] at hinbox
        obtain ⟨k, hk, hk'⟩ := hkey.current hinbox
        exact ⟨k, hold_current_kept (by simpa using hinbox) hk, hk'⟩
    · exact (h.keys other).congr (hold_same hother)

/-- A new number of a create that adds nothing to the inbox. -/
theorem silence (hnumber : number ≤ c.number)
    (hfresh : ∀ k, ∀ timer ∈ c'.timers k, timer.number ≠ number) :
    Twin policy (silent ++ [number]) c c' :=
  { h with
    heard := List.forall_mem_snoc h.heard hnumber
    keys := fun k => { h.keys k with
      armed := fun n deadline hn => (h.keys k).armed n deadline fun hmem =>
        hn (mem_append_left _ hmem)
      loud := fun timer htimer => by
        rw [mem_append, mem_singleton]
        exact fun hmem => hmem.elim ((h.keys k).loud timer htimer) (hfresh k timer htimer) } }

theorem defer (hclock : c.clock ≤ env.now) (hnumber : c.number < number)
    (hturn : deferred.turn = none) :
    Twin policy silent ((c.arrive env.now number).defer policy env number deferred).1
        ((c'.arrive env.now number).defer policy env number deferred).1 ∧
      commits ((c'.arrive env.now number).defer policy env number deferred).2 =
        commits ((c.arrive env.now number).defer policy env number deferred).2 := by
  have harrived : Twin policy silent (c.arrive env.now number) (c'.arrive env.now number) :=
    h.arrive hclock hnumber
  cases hkey : deferred.record.dedupeKey with
  | none =>
    rw [defer_keyless hkey, defer_keyless hkey]
    exact ⟨harrived, rfl⟩
  | some dedupeKey =>
    have haccepts : (c.arrive env.now number).accepts policy env dedupeKey deferred =
        (c'.arrive env.now number).accepts policy env dedupeKey deferred :=
        harrived.accepts le_rfl dedupeKey deferred
    have hsilent : number ∉ silent := fun hmem => absurd (h.heard number hmem) (by omega)
    rw [defer_key hkey, defer_key hkey, ← haccepts, hturn]
    refine ⟨?_, rfl⟩
    split
    · exact harrived.consumed le_rfl
    · exact (harrived.consumed le_rfl).hold hsilent _

/-- A create that adds nothing to the inbox, in the first run. -/
theorem defer_silent (hok' : Ok policy c') (hclock : c.clock ≤ env.now)
    (hnumber : c.number < number) (hturn : deferred.turn = none) (hinbox : deferred.inbox = false) :
    Twin policy (silent ++ [number])
    ((c.arrive env.now number).defer policy env number deferred).1 c' ∧
      commits ((c.arrive env.now number).defer policy env number deferred).2 = [] := by
  have hfresh : ∀ k, ∀ timer ∈ c'.timers k, timer.number ≠ number := by
    intro k timer htimer heq
    have hle := (hok'.bounded k timer htimer).1.trans h.number
    omega
  have harrived : Twin policy (silent ++ [number]) (c.arrive env.now number) c' :=
    (h.arrive_silent hclock hnumber).silence le_rfl hfresh
  cases hkey : deferred.record.dedupeKey with
  | none =>
    rw [defer_keyless hkey, hinbox]
    exact ⟨harrived, rfl⟩
  | some dedupeKey =>
    have haccepts : (c.arrive env.now number).accepts policy env dedupeKey deferred = false := by
      simp [Coordinator.accepts, Coordinator.takes, hinbox]
    have hconsumed : Twin policy (silent ++ [number])
        ((c.arrive env.now number).consumed policy env dedupeKey deferred) c' :=
      harrived.consumed_silent le_rfl hinbox
    rw [defer_key hkey, haccepts, hturn]
    refine ⟨?_, rfl⟩
    split
    · exact hconsumed
    · exact hconsumed.hold_silent (by simp)

/-! ### Resolves -/

theorem resolve (hclock : c.clock ≤ env.now) {asOf : Option ResolveAsOf}
    (hagree : isTurnDedupeKey dedupeKey ∨ c.inbox dedupeKey ≠ none →
      c.refreshedSince (dedupeKey, none) asOf = c'.refreshedSince (dedupeKey, none) asOf) :
    Twin policy silent (c.resolve policy env number dedupeKey asOf).1
      (c'.resolve policy env number dedupeKey asOf).1 where
  clock := by
    rw [resolve_fields.1, resolve_fields.1]
    exact h.clock
  number := by
    rw [resolve_fields.2, resolve_fields.2]
    exact h.number
  heard n hn := by
    rw [resolve_fields.2]
    exact h.heard n hn
  resolved now hnow := by
    rw [resolve_fields.1] at hnow
    have hinbox : (c.entry dedupeKey).bind (·.inbox) = (c'.entry dedupeKey).bind (·.inbox) :=
      (h.keys dedupeKey).inbox
    rw [resolve_resolved, resolve_resolved, ← hinbox, h.resolved env.now hclock]
    by_cases hturn : isTurnDedupeKey dedupeKey
    · rw [hagree (.inl hturn)]
      split
      · rfl
      · exact h.resolved now hnow
    · rw [if_neg fun hall => hturn hall.2.2, if_neg fun hall => hturn hall.2.2]
      exact h.resolved now hnow
  keys other := by
    have htimers : ∀ (d : Coordinator) timer,
      timer ∈ (d.resolve policy env number dedupeKey asOf).1.timers other ↔
        timer ∈ d.timers other := fun d timer => by rw [resolve_timers]
    by_cases hother : other = dedupeKey
    · subst hother
      have hkey := h.keys other
      have hinbox : (c.entry other).bind (·.inbox) = (c'.entry other).bind (·.inbox) := hkey.inbox
      by_cases hnone : c.inbox other = none
      · -- nothing for the inbox is pending in either run
        have hleft : (c.entry other).bind (·.inbox) = none := hnone
        have hgone : ∀ d : Coordinator, (d.entry other).bind (·.inbox) = none →
            (d.resolve policy env number other asOf).1.inbox other = none := by
          intro d hd
          rw [inbox, resolve_entry]
          split
          · exact hd
          · rfl
        refine ⟨(hgone c hleft).trans (hgone c' (hinbox ▸ hleft)).symm, fun k deadline hk => ?_,
          fun timer htimer => ?_, fun hne => absurd (hgone c hleft) hne⟩
        · simpa only [Armed, htimers] using hkey.armed k deadline hk
        · exact hkey.loud timer ((htimers c' timer).mp htimer)
      · have hagree := hagree (.inr hnone)
        by_cases hrefreshed : c.refreshedSince (other, none) asOf
        · exact hkey.congr ⟨by rw [resolve_entry, if_pos hrefreshed], htimers c⟩
            ⟨by rw [resolve_entry, if_pos (hagree ▸ hrefreshed)], htimers c'⟩
        · have hgone : (c.resolve policy env number other asOf).1.inbox other = none := by
            rw [inbox, resolve_entry, if_neg hrefreshed]
            rfl
          refine ⟨?_, fun k deadline hk => ?_, fun timer htimer => ?_, fun hne => absurd hgone hne⟩
          · rw [hgone, inbox, resolve_entry, if_neg (hagree ▸ hrefreshed)]
            rfl
          · simpa only [Armed, htimers] using hkey.armed k deadline hk
          · exact hkey.loud timer ((htimers c' timer).mp htimer)
    · exact (h.keys other).congr ⟨resolve_entry_ne hother, htimers c⟩
        ⟨resolve_entry_ne hother, htimers c'⟩

end

/-! ### Expiries -/

variable {result : Coordinator × List Effect}

/-- Where no inbox record is pending, no timer commits one. -/
theorem expired_inbox_none (hok : Ok policy c)
    (hhandled : Handled policy c env (.expire (dedupeKey, none) number) result)
    (hinbox : c.inbox dedupeKey = none) :
    result.1.inbox dedupeKey = none ∧ commits result.2 = [] := by
  obtain ⟨timer, -, -, -, -, -, hflush⟩ := hhandled.expired hok
  unfold inbox at hinbox ⊢
  rcases hflush with ⟨entry, hentry, -, hgone, hcommits⟩ | ⟨-, hsame, hcommits⟩
  · rw [hentry] at hinbox
    have hnone : entry.inbox = none := hinbox
    rw [hgone, hcommits, hnone]
    exact ⟨rfl, rfl⟩
  · rw [hsame]
    exact ⟨hinbox, hcommits⟩

/-- The current timer of a key with an inbox record flushes it; any other
leaves it. -/
theorem expired_inbox (hok : Ok policy c) {k : ℕ}
    (hhandled : Handled policy c env (.expire (dedupeKey, none) number) result)
    (hk : CurrentBy c dedupeKey k) {record : NotificationRecord}
    (hinbox : c.inbox dedupeKey = some record) :
    (k = number → result.1.inbox dedupeKey = none ∧ commits result.2 =
      if record.kind = .turnCompleted && foreign record &&
          record.sessionId.any fun sessionId =>
          env.recentlyReported sessionId policy.repeatWindow then []
      else [record]) ∧
    (k ≠ number → result.1.inbox dedupeKey = some record ∧ commits result.2 = [] ∧
      CurrentBy result.1 dedupeKey k) := by
  obtain ⟨timer, htimer, hnumber, -, htimers, -, hflush⟩ := hhandled.expired hok
  obtain ⟨entry, hentry, hrecord⟩ := bind_eq_some_iff.mp hinbox
  have hguard := hk.generation_iff hok hentry htimer
  rw [hnumber] at hguard
  rcases hflush with ⟨entry', hentry', hgeneration, hgone, hcommits⟩ | ⟨hstale, hsame, hcommits⟩
  · obtain rfl : entry = entry' := some.inj (hentry.symm.trans hentry')
    refine ⟨fun _ => ⟨by rw [inbox, hgone]; rfl, ?_⟩, fun hne => absurd (hguard.mp hgeneration) hne⟩
    have hwindow : entry.repeatsReportedTurn env =
      (decide (record.kind = .turnCompleted) && foreign record &&
        record.sessionId.any fun sessionId =>
        env.recentlyReported sessionId policy.repeatWindow) := by
      rw [Pending.repeatsReportedTurn, hrecord, hok.window hentry]
      rfl
    rw [hcommits, hwindow, hrecord]
    split
    · rename_i hrepeats
      simp [hrepeats]
    · rename_i hrepeats
      simp [hrepeats]
  · refine ⟨fun heq => absurd (hguard.mpr heq) (hstale entry hentry), fun hne => ⟨?_, hcommits, ?_⟩⟩
    · rw [inbox, hsame]
      exact hinbox
    · refine hk.congr hsame fun own hown heq => (htimers _ _).mpr
        ⟨hown, fun hgone => hne (heq.symm.trans hgone.2)⟩

/-- What an expiry leaves of the task's other state. -/
theorem expired_locals (hhandled : Handled policy c env (.expire (dedupeKey, none) number) result) :
    result.1.clock = env.now ∧ result.1.number = c.number ∧
      result.1.recentlyResolvedTurns = c.recentlyResolvedTurns := by
  obtain ⟨timer, -, rfl⟩ := hhandled.expire_inv
  exact flush_fields _

theorem expired_armed (hok : Ok policy c)
    (hhandled : Handled policy c env (.expire (dedupeKey, none) number) result) (other : String)
    (k deadline : ℕ) :
    Armed result.1 other k deadline ↔ Armed c other k deadline ∧
    ¬ (other = dedupeKey ∧ k = number) := by
  obtain ⟨-, -, -, -, htimers, -, -⟩ := hhandled.expired hok
  constructor
  · rintro ⟨timer, htimer, rfl, hdeadline⟩
    obtain ⟨hmem, hne⟩ := (htimers _ _).mp htimer
    exact ⟨⟨timer, hmem, rfl, hdeadline⟩, hne⟩
  · rintro ⟨⟨timer, hmem, rfl, hdeadline⟩, hne⟩
    exact ⟨timer, (htimers _ _).mpr ⟨hmem, hne⟩, rfl, hdeadline⟩

/-- Another key is left alone. -/
theorem expired_same (hok : Ok policy c)
    (hhandled : Handled policy c env (.expire (dedupeKey, none) number) result) {other : String}
    (hother : other ≠ dedupeKey) : SameAt result.1 c other := by
  obtain ⟨-, -, -, -, htimers, hentries, -⟩ := hhandled.expired hok
  exact ⟨hentries other hother,
    fun timer => (htimers _ _).trans (and_iff_left fun hsame => hother hsame.1)⟩

theorem expire (h : Twin policy silent c c') (hok : Ok policy c) (hok' : Ok policy c')
    {result' : Coordinator × List Effect} (hclock : c.clock ≤ env.now)
    (hhandled : Handled policy c env (.expire (dedupeKey, none) number) result)
    (hhandled' : Handled policy c' env (.expire (dedupeKey, none) number) result') :
    Twin policy silent result.1 result'.1 ∧ commits result'.2 = commits result.2 := by
  obtain ⟨htime, hcount, hresolved⟩ := expired_locals hhandled
  obtain ⟨htime', hcount', hresolved'⟩ := expired_locals hhandled'
  have hboth : result.1.inbox dedupeKey = result'.1.inbox dedupeKey ∧
    commits result'.2 = commits result.2 ∧
      (result.1.inbox dedupeKey ≠ none → ∃ k, CurrentBy result.1 dedupeKey k ∧
      CurrentBy result'.1 dedupeKey k) := by
    cases hinbox : c.inbox dedupeKey with
    | none =>
      obtain ⟨h1, h2⟩ := expired_inbox_none hok hhandled hinbox
      obtain ⟨h1', h2'⟩ := expired_inbox_none hok' hhandled' ((h.keys dedupeKey).inbox ▸ hinbox)
      exact ⟨h1.trans h1'.symm, h2'.trans h2.symm, fun hne => absurd h1 hne⟩
    | some record =>
      -- the same command's timer is the current one in both runs
      obtain ⟨k, hk, hk'⟩ := (h.keys dedupeKey).current (by simp [hinbox])
      obtain ⟨hflush, hstale⟩ := expired_inbox hok hhandled hk hinbox
      obtain ⟨hflush', hstale'⟩ :=
        expired_inbox hok' hhandled' hk' ((h.keys dedupeKey).inbox ▸ hinbox)
      by_cases heq : k = number
      · obtain ⟨h1, h2⟩ := hflush heq
        obtain ⟨h1', h2'⟩ := hflush' heq
        exact ⟨h1.trans h1'.symm, h2'.trans h2.symm, fun hne => absurd h1 hne⟩
      · obtain ⟨h1, h2, h3⟩ := hstale heq
        obtain ⟨h1', h2', h3'⟩ := hstale' heq
        exact ⟨h1.trans h1'.symm, h2'.trans h2.symm, fun _ => ⟨k, h3, h3'⟩⟩
  refine ⟨?_, hboth.2.1⟩
  exact
    { clock := by rw [htime, htime']
      number := by rw [hcount, hcount']; exact h.number
      heard := by rw [hcount]; exact h.heard
      resolved := fun now hnow => by
        rw [hresolved, hresolved']
        exact h.resolved now (hclock.trans (htime ▸ hnow))
      keys := fun other => by
        by_cases hother : other = dedupeKey
        · subst hother
          obtain ⟨-, -, -, -, htimers, -, -⟩ := hhandled'.expired hok'
          refine ⟨hboth.1, fun k deadline hk => ?_, fun timer htimer => ?_, hboth.2.2⟩
          · rw [expired_armed hok hhandled, expired_armed hok' hhandled',
              (h.keys other).armed k deadline hk]
          · exact (h.keys other).loud timer ((htimers _ _).mp htimer).1
        · exact (h.keys other).congr (expired_same hok hhandled hother)
            (expired_same hok' hhandled' hother) }

/-- The timer of a create that adds nothing to the inbox, in the first run. -/
theorem expire_silent (h : Twin policy silent c c') (hok : Ok policy c)
    (hclock : c.clock ≤ env.now) (hnumber : number ∈ silent)
    (hhandled : Handled policy c env (.expire (dedupeKey, none) number) result) :
    Twin policy silent result.1 c' ∧ commits result.2 = [] := by
  obtain ⟨htime, hcount, hresolved⟩ := expired_locals hhandled
  have hboth : result.1.inbox dedupeKey = c'.inbox dedupeKey ∧ commits result.2 = [] ∧
      (result.1.inbox dedupeKey ≠ none → ∃ k, CurrentBy result.1 dedupeKey k ∧
      CurrentBy c' dedupeKey k) := by
    cases hinbox : c.inbox dedupeKey with
    | none =>
      obtain ⟨h1, h2⟩ := expired_inbox_none hok hhandled hinbox
      exact ⟨h1.trans (hinbox.symm.trans (h.keys dedupeKey).inbox), h2, fun hne => absurd h1 hne⟩
    | some record =>
      obtain ⟨k, hk, hk'⟩ := (h.keys dedupeKey).current (by simp [hinbox])
      -- the current timer is one the second run has too
      have hne : k ≠ number := by
        obtain ⟨-, -, timer, htimer, -, rfl⟩ := hk'
        exact fun heq => (h.keys dedupeKey).loud timer htimer (heq ▸ hnumber)
      obtain ⟨h1, h2, h3⟩ := (expired_inbox hok hhandled hk hinbox).2 hne
      exact ⟨h1.trans (hinbox.symm.trans (h.keys dedupeKey).inbox), h2, fun _ => ⟨k, h3, hk'⟩⟩
  refine ⟨?_, hboth.2.1⟩
  exact
    { clock := by rw [htime]; exact h.clock.trans hclock
      number := by rw [hcount]; exact h.number
      heard := by rw [hcount]; exact h.heard
      resolved := fun now hnow => by
        rw [hresolved]
        exact h.resolved now (hclock.trans (htime ▸ hnow))
      keys := fun other => by
        by_cases hother : other = dedupeKey
        · subst hother
          refine ⟨hboth.1, fun k deadline hk => ?_, (h.keys other).loud, hboth.2.2⟩
          rw [expired_armed hok hhandled, ← (h.keys other).armed k deadline hk]
          exact and_iff_left fun hsame => hk (hsame.2 ▸ hnumber)
        · exact (h.keys other).congr (expired_same hok hhandled hother) }

end Twin

/-! ### Whole runs -/

/-- The records handed to the inbox, with the times. -/
def inboxCommits (tr : Trace) : List (ℕ × NotificationRecord) :=
  tr.flatMap fun l => (commits l.answer).map fun record => (l.call.env.now, record)

theorem inboxCommits_snoc (tr : Trace) (l : Label Input (List Effect)) : inboxCommits (tr ++ [l]) =
    inboxCommits tr ++ (commits l.answer).map fun record => (l.call.env.now, record) := by
  simp [inboxCommits]

/-- Wherever a resolve may matter to the inbox (a turn key, or an inbox record
is pending), whether its entry is newer does not depend on the creates that
add nothing to the inbox. -/
def Undisturbed (policy : Policy) (tr : Trace) : Prop :=
  ∀ (before after : Trace) l, tr = before ++ l :: after → ∀ number dedupeKey asOf,
    l.call.event = .resolve number dedupeKey asOf → ∀ (before' : Trace) s s',
    Run (StepOf (handle policy)) .new before s → Run (StepOf (handle policy)) .new before' s' →
    before'.map (·.call) = withoutSignalOnly (before.map (·.call)) →
    isTurnDedupeKey dedupeKey ∨ s.inbox dedupeKey ≠ none →
    s.refreshedSince (dedupeKey, none) asOf = s'.refreshedSince (dedupeKey, none) asOf

section Runs

variable {tr : Trace} {s c c' : Coordinator} {silent : List ℕ} {event : Event}
    {result : Coordinator × List Effect}

theorem Undisturbed.of_snoc {l : Label Input (List Effect)} (h : Undisturbed policy (tr ++ [l])) :
    Undisturbed policy tr := by
  rintro before after m rfl
  exact h before (after ++ [l]) m (by simp)

/-- Runs without turns pend and arm nothing of a turn, and a timer expires
after the command that armed it. -/
theorem plain_run (hrun : Run (StepOf (handle policy)) .new tr s) :
    (∀ l ∈ tr, l.call.event.Plain) →
      Plain s ∧ ∀ l ∈ tr, ∀ key number, l.call.event = .expire key number → number ≤ s.number := by
  refine hrun.history ?_ ?_
  · exact fun _ => ⟨⟨by simp [new], by simp [new]⟩, by simp⟩
  · intro tr t l u hbefore ht hstep hplain
    have hhandled := (handle_eq_some_iff.mp hstep).2
    obtain ⟨htplain, hbound⟩ := ht fun m hm => hplain m (mem_append_left _ hm)
    refine ⟨htplain.step (hplain l (by simp)) hhandled, fun m hm key number hevent => ?_⟩
    have hle : t.number ≤ u.number := hhandled.number_le
    rcases mem_append.mp hm with hm | hm
    · exact (hbound m hm key number hevent).trans hle
    · obtain rfl := mem_singleton.mp hm
      rw [hevent] at hhandled
      obtain ⟨timer, htimer, -⟩ := hhandled.expire_inv
      have hkey : key.2 = none := htplain.expire_key htimer
      obtain ⟨dedupeKey, turn⟩ := key
      obtain rfl : turn = none := hkey
      obtain ⟨expired, hexpired, rfl, -⟩ := hhandled.expired (Ok.run hbefore)
      exact ((Ok.run hbefore).bounded dedupeKey expired hexpired).1.trans hle

/-- One turn of the loop: the second run follows where the input stays, and
rests where it is deleted. -/
theorem twin_step (h : Twin policy silent c c') (hok : Ok policy c) (hok' : Ok policy c')
    (hplain : Plain c) (hplain' : Plain c') (hclock : c.clock ≤ env.now) (hevent : event.Plain)
    (hagree : ∀ number dedupeKey asOf, event = .resolve number dedupeKey asOf →
      isTurnDedupeKey dedupeKey ∨ c.inbox dedupeKey ≠ none →
      c.refreshedSince (dedupeKey, none) asOf = c'.refreshedSince (dedupeKey, none) asOf)
    (hhandled : Handled policy c env event result) :
    if event.stays silent then
      ∃ result', Handled policy c' env event result' ∧ commits result'.2 = commits result.2 ∧
        Twin policy (silent ++ event.signalOnly.toList) result.1 result'.1
    else commits result.2 = [] ∧ Twin policy (silent ++ event.signalOnly.toList) result.1 c' := by
  cases hhandled with
  | @defer number hnumber deferred =>
    have hturn : deferred.turn = none := hevent
    cases hinbox : deferred.inbox with
    | true =>
      obtain ⟨htwin, hcommits⟩ := h.defer hclock hnumber hturn
      simp only [Event.stays, Event.signalOnly, hinbox, if_true, Option.toList_none, append_nil]
      exact ⟨_, .defer (h.number.trans_lt hnumber) deferred, hcommits, htwin⟩
    | false =>
      obtain ⟨htwin, hcommits⟩ := h.defer_silent hok' hclock hnumber hturn hinbox
      simp only [Event.stays, Event.signalOnly, hinbox, Bool.false_eq_true, if_false,
        Option.toList_some]
      exact ⟨hcommits, htwin⟩
  | @resolve number hnumber dedupeKey asOf =>
    have hnone : ∀ {d : Coordinator}, Plain d →
        commits ((d.arrive env.now number).resolve policy env number dedupeKey asOf).2 = [] := by
      intro d hd
      obtain ⟨-, -, -, hturns⟩ :=
        resolve_closed policy env number (d.arrive env.now number) dedupeKey asOf
      have harrived : Plain (d.arrive env.now number) := ⟨hd.pending, hd.queue⟩
      exact eq_nil_iff_forall_not_mem.mpr fun record hrecord =>
        harrived.not_ofTurn record (hturns record hrecord)
    have harrived : Twin policy silent (c.arrive env.now number) (c'.arrive env.now number) :=
      h.arrive hclock hnumber
    simp only [Event.stays, Event.signalOnly, if_true, Option.toList_none, append_nil]
    exact ⟨_, .resolve (h.number.trans_lt hnumber) dedupeKey asOf,
      (hnone hplain').trans (hnone hplain).symm,
      harrived.resolve le_rfl (hagree number dedupeKey asOf rfl)⟩
  | @expire number key timer htimer =>
    have hkey : key.2 = none := hplain.expire_key htimer
    obtain ⟨dedupeKey, turn⟩ := key
    obtain rfl : turn = none := hkey
    have hhandled : Handled policy c env (.expire (dedupeKey, none) number) _ := .expire htimer
    by_cases hsilent : number ∈ silent
    · obtain ⟨htwin, hcommits⟩ := h.expire_silent hok hclock hsilent hhandled
      simp only [Event.stays, Event.signalOnly, hsilent, not_true_eq_false, decide_false,
        Bool.false_eq_true, if_false, Option.toList_none, append_nil]
      exact ⟨hcommits, htwin⟩
    · obtain ⟨own, hown, hnumber, hdue, -⟩ := hhandled.expired hok
      obtain ⟨twin, htimer', rfl, hdeadline⟩ :=
        ((h.keys dedupeKey).armed number own.deadline hsilent).mp ⟨own, hown, hnumber, rfl⟩
      obtain ⟨result', hhandled'⟩ : ∃ result',
        Handled policy c' env (.expire (dedupeKey, none) twin.number) result' :=
        handled_of_due htimer' (hdeadline ▸ hdue)
      obtain ⟨htwin, hcommits⟩ := h.expire hok hok' hclock hhandled hhandled'
      simp only [Event.stays, Event.signalOnly, hsilent, not_false_eq_true, decide_true, if_true,
        Option.toList_none, append_nil]
      exact ⟨result', hhandled', hcommits, htwin⟩

theorem twin_run (hrun : Run (StepOf (handle policy)) .new tr s) :
    (∀ l ∈ tr, l.call.event.Plain) → Undisturbed policy tr → ∃ tr' s',
      Run (StepOf (handle policy)) .new tr' s' ∧
        tr'.map (·.call) = withoutSignalOnly (tr.map (·.call)) ∧
        inboxCommits tr' = inboxCommits tr ∧
        (∀ l ∈ tr', l.call.event.Plain) ∧ Twin policy (signalOnly (tr.map (·.call))) s s' := by
  refine hrun.history (fun _ _ => ⟨[], .new, .refl _, rfl, rfl, by simp, .new⟩) ?_
  intro tr t l u hbefore ht hstep hplain hundisturbed
  have hplains : ∀ m ∈ tr, m.call.event.Plain := fun m hm => hplain m (mem_append_left _ hm)
  obtain ⟨tr', t', hrun', hcalls, hcommits, hplains', htwin⟩ := ht hplains hundisturbed.of_snoc
  obtain ⟨hclock, hhandled⟩ := handle_eq_some_iff.mp hstep
  obtain ⟨htplain, hbound⟩ := plain_run hbefore hplains
  have hlplain := hplain l (by simp)
  have hnext := twin_step htwin (Ok.run hbefore) (Ok.run hrun') htplain
    (plain_run hrun' hplains').1 hclock hlplain
    (fun number dedupeKey asOf hevent => hundisturbed tr [] l
    (by simp) number dedupeKey asOf hevent tr' t t'
      hbefore hrun' hcalls) hhandled
  -- the number of a create is new, so no earlier expiry is of its timer
  have hfresh : ∀ number, l.call.event.signalOnly = some number →
      ∀ earlier ∈ tr.map (·.call), ∀ key, earlier.event ≠ .expire key number := by
    intro number hsilent earlier hearlier key hexpire
    obtain ⟨m, hm, rfl⟩ := mem_map.mp hearlier
    have hle := hbound m hm key number hexpire
    generalize l.call.event = event at hhandled hsilent
    generalize (u, l.answer) = result at hhandled
    cases hhandled with
    | defer hnumber deferred =>
      simp only [Event.signalOnly] at hsilent
      split at hsilent
      · simp at hsilent
      · have hsame := some.inj hsilent
        omega
    | resolve => simp [Event.signalOnly] at hsilent
    | expire => simp [Event.signalOnly] at hsilent
  rw [map_append, map_cons, map_nil, withoutSignalOnly_snoc hfresh, signalOnly_snoc,
    inboxCommits_snoc]
  split at hnext
  · rename_i hstays
    obtain ⟨⟨u', answer'⟩, hhandled', hsame, htwin'⟩ := hnext
    refine ⟨tr' ++ [⟨l.call, answer'⟩], u', .snoc hrun' ?_, ?_, ?_, ?_, htwin'⟩
    · exact handle_eq_some_iff.mpr ⟨htwin.clock.trans hclock, hhandled'⟩
    · rw [map_append, hcalls, if_pos hstays]
      rfl
    · rw [inboxCommits_snoc, hcommits, hsame]
    · exact List.forall_mem_snoc hplains' hlplain
  · rename_i hdeleted
    obtain ⟨hnone, htwin'⟩ := hnext
    refine ⟨tr', t', hrun', ?_, ?_, hplains', htwin'⟩
    · rw [hcalls, if_neg hdeleted, append_nil]
    · rw [hcommits, hnone, map_nil, append_nil]

/-- **Creates that add nothing to the inbox do not show in it**, in every run
without turns in which they leave alone whether a resolve that matters to the
inbox finds its entry newer: the run without them, and without the timers they
armed, hands the same records to the inbox at the same times. -/
theorem signal_only_unseen (hrun : Run (StepOf (handle policy)) .new tr s)
    (hplain : ∀ l ∈ tr, l.call.event.Plain) (hundisturbed : Undisturbed policy tr) :
    ∃ tr' s', Run (StepOf (handle policy)) .new tr' s' ∧
      tr'.map (·.call) = withoutSignalOnly (tr.map (·.call)) ∧
      inboxCommits tr' = inboxCommits tr := by
  obtain ⟨tr', s', hrun', hcalls, hcommits, -, -⟩ := twin_run hrun hplain hundisturbed
  exact ⟨tr', s', hrun', hcalls, hcommits⟩

/-- A resolve that stands for no earlier moment finds no entry newer. -/
theorem undisturbed_of_unstamped
    (h : ∀ l ∈ tr, ∀ number dedupeKey asOf, l.call.event = .resolve number dedupeKey asOf →
      asOf = none) : Undisturbed policy tr := by
  rintro before after l rfl number dedupeKey asOf hevent before' s s' - - - -
  obtain rfl := h l (by simp) number dedupeKey asOf hevent
  have hnever : ∀ c : Coordinator, c.refreshedSince (dedupeKey, none) none = false := by
    intro c
    unfold refreshedSince
    cases c.pending.lookup (dedupeKey, none) <;> rfl
  rw [hnever, hnever]

end Runs

namespace Sample

/-- The projector's report for the inbox, a provider's report that the policy
keeps out of it, and a resolve as of a moment between the two. -/
def disturbed : List Input :=
  [⟨.defer 1 (create "n-1" "pohunek" true 1), quiet 1⟩,
    ⟨.defer 2 (create "n-2" "codex" false 5), quiet 5⟩,
    ⟨.resolve 3 dedupeKey (some ⟨3, 6⟩), quiet 6⟩, ⟨.expire (dedupeKey, none) 1, quiet 10000000001⟩]

/-- The same without the resolve, and with a second report for the inbox. -/
def undisturbed : List Input :=
  [⟨.defer 1 (create "n-1" "pohunek" true 1), quiet 1⟩,
    ⟨.defer 2 (create "n-2" "codex" false 5), quiet 5⟩,
    ⟨.defer 3 (create "n-3" "pohunek" true 6), quiet 6⟩,
    ⟨.expire (dedupeKey, none) 1, quiet 10000000001⟩,
    ⟨.expire (dedupeKey, none) 3, quiet 10000000006⟩]

end Sample

/-- A create that adds nothing to the inbox shows in it: it keeps the resolve
from taking the pending inbox record away. -/
theorem signal_only_seen : ∃ tr s tr' s', Run (StepOf (handle Sample.policy)) .new tr s ∧
    tr.map (·.call) = Sample.disturbed ∧ Run (StepOf (handle Sample.policy)) .new tr' s' ∧
    tr'.map (·.call) = withoutSignalOnly Sample.disturbed ∧
    inboxCommits tr = [(10000000001, Sample.record "n-1" "pohunek")] ∧ inboxCommits tr' = [] := by
  have hrun := execAll_get (handle Sample.policy) .new Sample.disturbed (by decide +kernel)
  have hrun' := execAll_get (handle Sample.policy) .new (withoutSignalOnly Sample.disturbed)
    (by decide +kernel)
  exact ⟨_, _, _, _, hrun.1, hrun.2, hrun'.1, hrun'.2, by decide +kernel, by decide +kernel⟩

theorem signal_only_unseen_rearmed : ∃ tr' s', Run (StepOf (handle Sample.policy)) .new tr' s' ∧
    tr'.map (·.call) = withoutSignalOnly Sample.undisturbed ∧
    inboxCommits tr' = [(10000000006, Sample.record "n-3" "pohunek")] := by
  have hexec : ((execAll (handle Sample.policy) .new Sample.undisturbed).any fun r =>
      inboxCommits r.2 = [(10000000006, Sample.record "n-3" "pohunek")]) = true := by
    decide +kernel
  obtain ⟨⟨s, tr⟩, hexec, hcommits⟩ := (Option.any_eq_true _ _).mp hexec
  have hcalls := execAll_calls _ _ hexec
  have hmem : ∀ l ∈ tr, l.call ∈ Sample.undisturbed := fun l hl => hcalls ▸ mem_map_of_mem hl
  have hplain : ∀ input ∈ Sample.undisturbed, input.event.Plain := by
    simp [Sample.undisturbed, Event.Plain, Sample.create]
  have hunstamped : ∀ input ∈ Sample.undisturbed, ∀ number dedupeKey asOf,
      input.event = .resolve number dedupeKey asOf → asOf = none := by
    simp [Sample.undisturbed]
  obtain ⟨tr', s', hrun', hcalls', hcommits'⟩ := signal_only_unseen (execAll_run _ _ hexec)
    (fun l hl => hplain l.call (hmem l hl))
    (undisturbed_of_unstamped fun l hl => hunstamped l.call (hmem l hl))
  exact ⟨tr', s', hrun', hcalls ▸ hcalls', hcommits'.trans (of_decide_eq_true hcommits)⟩

end Pohunek.Attention
