/-
# Debounced attention

What the pending entry of an attention key is for, told by the commands alone:
`held` are the creates that were merged into it, oldest first, and the chain
of the key are those that are held where only creates for the inbox come. An
entry ends with a resolve that stands for a moment not before its newest
contribution of another producer (`cancels`), and with the expiry of its own
timer. The coordinator refines this (`Refines`): its entry carries the last
record of greatest rank, and the timer of the last inbox create is the one that
flushes it. A create that adds nothing to the inbox counts for `cancels`; where
none is newer than the chain (`SignalsOlder`), the chain is all that counts.
-/
import Pohunek.Attention.Entry

namespace Pohunek.Attention

open Notifications Turns Runs Coordinator List Option

/-! ### The creates of an entry -/

/-- A create, as it was handled. -/
structure Create where
  number : ℕ
  time : ℕ
  deferred : DeferredNotification

namespace Create

def record (create : Create) : NotificationRecord := create.deferred.record

def isInbox (create : Create) : Bool := create.deferred.inbox

/-- The time a producer other than the projector minted the record. -/
def foreignAt (create : Create) :
    Option ℕ := if foreign create.record then some create.deferred.minted else none

end Create

/-- A resolve as of a moment ends an entry unless another producer
contributed to it later. -/
def cancels (asOf : Option ResolveAsOf) (creates : List Create) : Bool :=
  asOf.all fun asOf => creates.all fun create => create.foreignAt.all fun minted => minted ≤
    asOf.mintedBefore

variable (creates : List Create)

/-- The create whose timer is the entry's: the last one for the inbox, or the
last one where none is. -/
def timerOf : Option Create :=
  ((creates.filter Create.isInbox).getLast?).or creates.getLast?

/-- The creates of the entry of a key after one more turn of the loop. -/
def heldNext (dedupeKey : String) (creates : List Create) (input : Input) : List Create :=
  match input.event with
  | .defer number deferred =>
    if deferred.record.dedupeKey = some dedupeKey ∧ (deferred.inbox || deferred.signal) then
      creates ++ [⟨number, input.env.now, deferred⟩]
    else creates
  | .resolve _ key asOf => if key = dedupeKey ∧ cancels asOf creates then [] else creates
  | .expire key number =>
    if key = (dedupeKey, none) ∧ (timerOf creates).any (·.number = number) then [] else creates

/-- The creates merged into the entry of a key. -/
def held (dedupeKey : String) (tr : Trace) : List Create :=
  tr.foldl (fun creates l => heldNext dedupeKey creates l.call) []

/-- A create that adds nothing to the inbox. -/
def keptOut (l : Label Input (List Effect)) : Bool :=
  match l.call.event with
  | .defer _ deferred => !deferred.inbox
  | _ => false

/-- The open chain of a key: the inbox creates since it was last resolved or
flushed. -/
def chain (dedupeKey : String) (tr : Trace) :
    List Create := held dedupeKey (tr.filter fun l => !keptOut l)

theorem held_snoc (dedupeKey : String) (tr : Trace) (l : Label Input (List Effect)) :
    held dedupeKey (tr ++ [l]) = heldNext dedupeKey (held dedupeKey tr) l.call := by
  rw [held, foldl_append]
  rfl

theorem chain_snoc (dedupeKey : String) (tr : Trace) (l : Label Input (List Effect)) :
    chain dedupeKey (tr ++ [l]) =
    if keptOut l then chain dedupeKey tr else heldNext dedupeKey (chain dedupeKey tr) l.call := by
  unfold chain
  rw [filter_append]
  by_cases h : keptOut l
  · simp [h]
  · rw [filter_cons_of_pos (by simp [h]), filter_nil, held_snoc, if_neg h]

/-! ### The record and the times of an entry -/

/-- The record an entry would commit. -/
def best : Option NotificationRecord :=
  (creates.filter Create.isInbox).foldl
    (fun existing create => some (prefer existing create.record)) none

def newestForeign : Option ℕ :=
  creates.foldl (fun newest create => max newest create.foreignAt) none

theorem best_snoc (create : Create) : best (creates ++ [create]) =
    if create.isInbox then some (prefer (best creates) create.record) else best creates := by
  unfold best
  by_cases h : create.isInbox <;> simp [h]

theorem newestForeign_snoc (create : Create) :
    newestForeign (creates ++ [create]) = max (newestForeign creates) create.foreignAt := by
  rw [newestForeign, foldl_append]
  rfl

theorem timerOf_snoc (create : Create) : timerOf (creates ++ [create]) =
    if create.isInbox ∨ creates.filter Create.isInbox = [] then some create
    else timerOf creates := by
  unfold timerOf
  rw [filter_append]
  by_cases h : create.isInbox
  · simp [h]
  · rw [filter_cons_of_neg h, filter_nil, append_nil]
    by_cases hnil : creates.filter Create.isInbox = []
    · simp [hnil]
    · obtain ⟨last, hlast⟩ :=
        ne_none_iff_exists'.mp fun hnone => hnil (getLast?_eq_none_iff.mp hnone)
      simp [h, hnil, hlast]

variable {creates : List Create}

theorem timerOf_eq_none_iff : timerOf creates = none ↔ creates = [] := by
  unfold timerOf
  rw [or_eq_none_iff, getLast?_eq_none_iff, getLast?_eq_none_iff]
  exact ⟨fun h => h.2, fun h => by simp [h]⟩

/-- The timer of an entry with an inbox record is that of the chain's last
create. -/
theorem timerOf_chain {earlier : List Create} {last : Create}
    (h : creates.filter Create.isInbox = earlier ++ [last]) : timerOf creates = some last := by
  unfold timerOf
  rw [h]
  simp

theorem best_eq_none_iff : best creates = none ↔ creates.filter Create.isInbox = [] := by
  unfold best
  cases hchain : creates.filter Create.isInbox using List.reverseRecOn with
  | nil => simp
  | append_singleton earlier last _ => simp

/-- The last record of greatest rank. -/
def LastOfGreatestRank (record : NotificationRecord) (creates : List Create) : Prop :=
  ∃ before create after, creates = before ++ create :: after ∧ create.record = record ∧
    (∀ earlier ∈ before, priorityRank earlier.record ≤ priorityRank record) ∧
    ∀ later ∈ after, priorityRank later.record < priorityRank record

theorem best_greatest : ∀ {chain : List Create} {record : NotificationRecord},
    chain.foldl (fun existing create => some (prefer existing create.record)) none = some record →
      LastOfGreatestRank record chain := by
  intro chain
  induction chain using List.reverseRecOn with
  | nil => simp
  | append_singleton earlier last ih =>
    intro record h
    rw [foldl_append, foldl_cons, foldl_nil, some.injEq] at h
    cases hbest : earlier.foldl (fun existing create =>
      some (prefer existing create.record)) none with
    | none =>
      have hnil : earlier = [] := by
        cases earlier using List.reverseRecOn with
        | nil => rfl
        | append_singleton _ _ _ => simp at hbest
      rw [hbest] at h
      exact ⟨[], last, [], by simp [hnil], h, by simp, by simp⟩
    | some existing =>
      obtain ⟨before, create, after, rfl, hcreate, hbefore, hafter⟩ := ih hbest
      rw [hbest] at h
      simp only [prefer, outranks, decide_eq_true_eq] at h
      split at h
      · rename_i hlt
        subst h
        refine ⟨before, create, after ++ [last], by simp, hcreate, hbefore,
          List.forall_mem_snoc hafter hlt⟩
      · subst h
        refine ⟨before ++ create :: after, last, [], by simp, rfl, fun other hother => ?_, by simp⟩
        have hother : priorityRank other.record ≤ priorityRank existing := by
          rcases mem_append.mp hother with hother | hother
          · exact hbefore other hother
          · rcases mem_cons.mp hother with rfl | hother
            · exact hcreate ▸ le_rfl
            · exact (hafter other hother).le
        omega

theorem any_after_max (moment : ℕ) (a b : Option ℕ) :
    (max a b).any (fun minted => moment < minted) =
    (a.any (fun minted => moment < minted) || b.any fun minted => moment < minted) := by
  cases a <;> cases b <;> simp

theorem any_after (moment : ℕ) (a : Option ℕ) :
    (a.any fun minted => moment < minted) = !a.all fun minted => minted ≤ moment := by
  cases a <;> simp [← decide_not]

/-- The entry was refreshed after the moment of a resolve just when the
resolve does not end it. -/
theorem newestForeign_after (asOf : Option ResolveAsOf) :
    (asOf.any fun asOf => (newestForeign creates).any fun minted => asOf.mintedBefore < minted) =
      !cancels asOf creates := by
  cases asOf with
  | none => rfl
  | some asOf =>
    simp only [any_some, cancels, all_some]
    induction creates using List.reverseRecOn with
    | nil => rfl
    | append_singleton creates create ih =>
      rw [newestForeign_snoc, any_after_max, ih, any_after, all_append, Bool.not_and, all_cons,
        all_nil, Bool.and_true]

/-! ### Attention keys -/

section AttentionKey

variable {policy : Policy} {env : Env} {c : Coordinator} {dedupeKey : String}

variable {record : NotificationRecord}

section

variable (hkey : isAttentionDedupeKey dedupeKey)
include hkey

/-- A record under an attention key is one of attention. -/
theorem attentionKind {turn : Option TurnId}
    (h : Fits (dedupeKey, turn) record) : record.kind ≠ .turnCompleted := by
  intro hkind
  obtain ⟨hrecord, hvalid, -⟩ := h
  unfold isAttentionDedupeKey isSessionKey at hkey
  unfold validateReservedDedupeKey at hvalid
  rw [hrecord] at hvalid
  split at hkey
  · rename_i start suffix hsuffix
    simp only [hsuffix, hkind] at hvalid
    simp only [Bool.decide_and, Bool.and_eq_true, decide_eq_true_eq] at hkey
    rw [if_pos ⟨hkey.1, rfl⟩] at hvalid
    simp at hvalid
  · simp at hkey

/-- It names no turn. -/
theorem attentionTurn {turn : Option TurnId}
    (h : Fits (dedupeKey, turn) record) : turn = none :=
  by_contra fun hturn => attentionKind hkey h (h.ofTurn hturn)

/-- The inbox takes an attention record that the policy keeps. -/
theorem accepts_attention {deferred : DeferredNotification}
    (h : deferred.record.dedupeKey = some dedupeKey) :
    c.accepts policy env dedupeKey deferred = deferred.inbox := by
  have hkind : deferred.record.kind ≠ .turnCompleted := attentionKind hkey (deferred.fits h)
  simp [accepts, takes, DeferredNotification.namelessReport, hkind]

/-- Nothing of a turn is committed under an attention key. -/
theorem not_ofTurn (hok : Ok policy c)
    (hrecord : record.dedupeKey = some dedupeKey) : ¬ OfTurn c record := by
  rintro ⟨⟨key, turn⟩, entry, hturn, hentry, hinbox⟩
  have hfits := hok.filed hentry hinbox
  obtain rfl : dedupeKey = key := some.inj (hrecord.symm.trans hfits.dedupeKey)
  exact hturn (attentionTurn hkey hfits)

end

/-! ### The coordinator holds what the commands say -/

structure Refines (policy : Policy) (dedupeKey : String) (creates : List Create)
    (c : Coordinator) : Prop where
  gone : creates = [] → c.entry dedupeKey = none
  pending : ∀ {create}, timerOf creates = some create → ∃ entry, c.entry dedupeKey = some entry ∧
    entry.inbox = best creates ∧ entry.newestForeign = newestForeign creates ∧
    (⟨⟨(dedupeKey, none), entry.generation⟩, create.time + policy.debounce, create.number⟩ : Timer)
      ∈ c.timers dedupeKey

namespace Refines

variable {creates : List Create} {number : ℕ}

theorem new : Refines policy dedupeKey [] .new := ⟨fun _ => rfl, by simp [timerOf]⟩

/-- The entry, whether it is there or not. -/
theorem entry_bind (h : Refines policy dedupeKey creates c) :
    (c.entry dedupeKey).bind (·.inbox) = best creates ∧
      (c.entry dedupeKey).bind (·.newestForeign) = newestForeign creates := by
  cases htimer : timerOf creates with
  | none =>
    have hnil := timerOf_eq_none_iff.mp htimer
    rw [h.gone hnil, hnil]
    exact ⟨rfl, rfl⟩
  | some create =>
    obtain ⟨entry, hentry, hinbox, hnewest, -⟩ := h.pending htimer
    rw [hentry]
    exact ⟨hinbox, hnewest⟩

/-- Where the entry stays and no timer of the key goes, so does the relation. -/
theorem congr {c' : Coordinator} (h : Refines policy dedupeKey creates c)
    (hentry : c'.entry dedupeKey = c.entry dedupeKey)
    (htimers : ∀ timer ∈ c.timers dedupeKey, timer ∈ c'.timers dedupeKey) :
    Refines policy dedupeKey creates c' where
  gone hnil := hentry.trans (h.gone hnil)
  pending htimer := by
    obtain ⟨entry, he, hinbox, hnewest, hmem⟩ := h.pending htimer
    exact ⟨entry, hentry.trans he, hinbox, hnewest, htimers _ hmem⟩

section

variable (h : Refines policy dedupeKey creates c)
include h

theorem refreshedSince (asOf : Option ResolveAsOf) :
    c.refreshedSince (dedupeKey, none) asOf = !cancels asOf creates := by
  rw [← newestForeign_after, ← h.entry_bind.2]
  show ((c.entry dedupeKey).any fun entry => _) = _
  cases asOf with
  | none => cases c.entry dedupeKey <;> rfl
  | some asOf => cases c.entry dedupeKey <;> rfl

/-- Whether a create keeps the timer of the entry. -/
theorem keptGeneration_isNone (inbox : Bool) :
    (c.keptGeneration (dedupeKey, none) inbox).isNone ↔ inbox ∨
    creates.filter Create.isInbox = [] := by
  rw [Coordinator.keptGeneration_isNone, h.entry_bind.1, best_eq_none_iff]

theorem hold (deferred : DeferredNotification) :
    Refines policy dedupeKey (creates ++ [⟨number, env.now, deferred⟩])
      (c.hold policy env number (dedupeKey, none) deferred deferred.inbox) := by
  refine ⟨by simp, fun {create} htimer => ?_⟩
  have hentry := hold_entry policy env number c dedupeKey deferred deferred.inbox
  obtain ⟨hbest, hnewest⟩ := h.entry_bind
  refine ⟨_, hentry, ?_, ?_, ?_⟩
  · rw [best_snoc, ← hbest]
    rfl
  · rw [newestForeign_snoc, ← hnewest]
    rfl
  · rw [mem_hold_timers]
    rw [timerOf_snoc] at htimer
    have hkept := h.keptGeneration_isNone deferred.inbox
    unfold nextGeneration
    split at htimer
    · -- the create armed a timer of its own
      rename_i harms
      cases htimer
      have hnone := hkept.mpr harms
      rw [isNone_iff_eq_none.mp hnone]
      exact .inr ⟨rfl, rfl⟩
    · rename_i hkeeps
      have hsome : c.keptGeneration (dedupeKey, none) deferred.inbox ≠ none :=
        fun hnone => hkeeps (hkept.mp (by rw [hnone]; rfl))
      obtain ⟨generation, hgeneration⟩ := ne_none_iff_exists'.mp hsome
      obtain ⟨-, entry, he, -, hsame⟩ := keptGeneration_eq_some hgeneration
      obtain ⟨entry', he', -, -, hmem⟩ := h.pending htimer
      obtain rfl : entry = entry' := some.inj (he.symm.trans he')
      rw [hgeneration, getD_some, ← hsame]
      exact .inl hmem

end

theorem defer (hkey : isAttentionDedupeKey dedupeKey) (h : Refines policy dedupeKey creates c)
    (deferred : DeferredNotification) :
    Refines policy dedupeKey (heldNext dedupeKey creates ⟨.defer number deferred, env⟩)
      ((c.arrive env.now number).defer policy env number deferred).1 := by
  have harrived : Refines policy dedupeKey creates (c.arrive env.now number) :=
    h.congr rfl fun _ => id
  cases hdedupe : deferred.record.dedupeKey with
  | none =>
    rw [defer_keyless hdedupe]
    simpa [heldNext, hdedupe] using harrived
  | some key =>
    rw [defer_key hdedupe]
    have hconsumed : Refines policy dedupeKey creates
      ((c.arrive env.now number).consumed policy env key deferred) :=
      harrived.congr rfl fun _ => id
    by_cases hsame : key = dedupeKey
    · subst hsame
      have hturn : deferred.turn = none := attentionTurn hkey (deferred.fits hdedupe)
      rw [accepts_attention hkey hdedupe, hturn]
      by_cases hnothing : (!deferred.inbox && !deferred.signal) = true
      · have hskip : (deferred.inbox || deferred.signal) = false := by simpa using hnothing
        rw [if_pos hnothing]
        simpa [heldNext, hdedupe, hskip] using hconsumed
      · have hheld : (deferred.inbox || deferred.signal) = true := by
          rw [← Bool.not_or, Bool.not_eq_true', Bool.not_eq_false] at hnothing
          exact hnothing
        rw [if_neg hnothing]
        simpa [heldNext, hdedupe, hheld] using hconsumed.hold deferred
    · have hnext : heldNext dedupeKey creates ⟨.defer number deferred, env⟩ = creates := by
        simp [heldNext, hdedupe, hsame]
      have hne : ((dedupeKey, none) : PendingKey) ≠ (key, deferred.turn) :=
        fun heq => hsame (Prod.mk.inj heq).1.symm
      rw [hnext]
      split
      · exact hconsumed
      · refine hconsumed.congr (hold_lookup_ne hne) fun timer htimer => ?_
        rw [hold_timers (Ne.symm hne)]
        exact htimer

theorem resolve (h : Refines policy dedupeKey creates c) (key : String)
    (asOf : Option ResolveAsOf) :
    Refines policy dedupeKey (heldNext dedupeKey creates ⟨.resolve number key asOf, env⟩)
      ((c.arrive env.now number).resolve policy env number key asOf).1 := by
  have harrived : Refines policy dedupeKey creates (c.arrive env.now number) :=
    h.congr rfl fun _ => id
  have htimers : ∀ timer ∈ (c.arrive env.now number).timers dedupeKey,
      timer ∈ ((c.arrive env.now number).resolve policy env number key asOf).1.timers
      dedupeKey := by
    intro timer htimer
    rw [resolve_timers]
    exact htimer
  by_cases hsame : key = dedupeKey
  · subst hsame
    have hentry := resolve_entry policy env number (c.arrive env.now number) key asOf
    rw [harrived.refreshedSince asOf] at hentry
    by_cases hcancels : cancels asOf creates
    · rw [hcancels] at hentry
      have hnext : heldNext key creates ⟨.resolve number key asOf, env⟩ = [] := by
        simp [heldNext, hcancels]
      rw [hnext]
      exact ⟨fun _ => hentry, by simp [timerOf]⟩
    · rw [Bool.not_eq_true] at hcancels
      rw [hcancels] at hentry
      have hnext : heldNext key creates ⟨.resolve number key asOf, env⟩ = creates := by
        simp [heldNext, hcancels]
      rw [hnext]
      exact harrived.congr hentry htimers
  · have hnext : heldNext dedupeKey creates ⟨.resolve number key asOf, env⟩ = creates := by
      simp [heldNext, hsame]
    rw [hnext]
    exact harrived.congr (resolve_entry_ne (Ne.symm hsame)) htimers

/-- The guard of `flush`: the timer that expires is of the entry's generation
just when it is the one of the entry's create. -/
theorem current_iff (hok : Ok policy c) (h : Refines policy dedupeKey creates c) {timer : Timer}
    (htimer : timer ∈ c.timers dedupeKey) :
    (∃ entry, c.entry dedupeKey = some entry ∧ entry.generation = timer.token.generation) ↔
      (timerOf creates).any (·.number = timer.number) := by
  cases hof : timerOf creates with
  | none =>
    rw [h.gone (timerOf_eq_none_iff.mp hof)]
    simp
  | some create =>
    obtain ⟨entry, hentry, -, -, hmem⟩ := h.pending hof
    have hiff := hok.number_eq_iff hmem htimer
    simp only [hentry, some.injEq, exists_eq_left', any_some, decide_eq_true_eq]
    exact hiff.symm

variable {result : Coordinator × List Effect}

theorem expire (hok : Ok policy c) (h : Refines policy dedupeKey creates c)
    (hhandled : Handled policy c env (.expire (dedupeKey, none) number) result) :
    Refines policy dedupeKey
    (heldNext dedupeKey creates ⟨.expire (dedupeKey, none) number, env⟩) result.1 := by
  obtain ⟨timer, hmem, hnumber, -, htimers, -, hflush⟩ := hhandled.expired hok
  have hcurrent := h.current_iff hok hmem
  rw [hnumber] at hcurrent
  rcases hflush with ⟨entry, hentry, hgeneration, hgone, -⟩ | ⟨hstale, hsame, -⟩
  · have hany := hcurrent.mp ⟨entry, hentry, hgeneration⟩
    have hnext : heldNext dedupeKey creates ⟨.expire (dedupeKey, none) number, env⟩ = [] :=
      if_pos ⟨rfl, hany⟩
    rw [hnext]
    exact ⟨fun _ => hgone, by simp [timerOf]⟩
  · have hother : ¬ (timerOf creates).any (·.number = number) = true := fun hany => by
      obtain ⟨entry, hentry, hgeneration⟩ := hcurrent.mpr hany
      exact hstale entry hentry hgeneration
    have hnext : heldNext dedupeKey creates ⟨.expire (dedupeKey, none) number, env⟩ = creates :=
      if_neg fun hnow => hother hnow.2
    rw [hnext]
    refine ⟨fun hnil => hsame.trans (h.gone hnil), fun {create} hcreate => ?_⟩
    obtain ⟨entry, hentry, hinbox, hnewest, hown⟩ := h.pending hcreate
    refine ⟨entry, hsame.trans hentry, hinbox, hnewest, (htimers _ _).mpr ⟨hown, fun hsame => ?_⟩⟩
    -- the timer of the entry is of another command than the one that expired
    exact hother (by rw [hcreate]; simpa using hsame.2)

theorem expire_ne (h : Refines policy dedupeKey creates c) {key : PendingKey} {timer : Timer}
    (hkey : key ≠ (dedupeKey, none))
    (htimer : c.queue.find? (Timer.due key number env.now) = some timer) :
    Refines policy dedupeKey (heldNext dedupeKey creates ⟨.expire key number, env⟩)
      ((c.take env.now key number).flush policy env number timer.token).1 := by
  have hnext : heldNext dedupeKey creates ⟨.expire key number, env⟩ = creates := by
    simp [heldNext, hkey]
  have htoken : timer.token.key ≠ (dedupeKey, none) := token_key htimer ▸ hkey
  rw [hnext]
  refine h.congr (flush_entry_ne htoken) fun own hown => ?_
  rw [flush_timers, take_timers_ne hkey]
  exact hown

theorem step (hkey : isAttentionDedupeKey dedupeKey) (hok : Ok policy c)
    (h : Refines policy dedupeKey creates c) {event : Event}
    (hhandled : Handled policy c env event result) :
    Refines policy dedupeKey (heldNext dedupeKey creates ⟨event, env⟩) result.1 := by
  cases hhandled with
  | defer _ deferred => exact h.defer hkey deferred
  | resolve _ key asOf => exact h.resolve key asOf
  | @expire number key timer htimer =>
    by_cases hown : key = (dedupeKey, none)
    · subst hown
      exact h.expire hok (.expire htimer)
    · exact h.expire_ne hown htimer

/-- **Every reachable state of the coordinator refines the creates held.** -/
theorem run (hkey : isAttentionDedupeKey dedupeKey) {tr : Trace}
    (h : Run (StepOf (handle policy)) .new tr c) :
    Refines policy dedupeKey (held dedupeKey tr) c := by
  refine h.history new ?_
  intro tr t l u hrun ht hstep
  rw [held_snoc]
  exact ht.step hkey (Ok.run hrun) (handle_eq_some_iff.mp hstep).2

end Refines

/-! ### What an expiry commits -/

section

variable {creates : List Create} {number : ℕ} {result : Coordinator × List Effect}
  (hkey : isAttentionDedupeKey dedupeKey) (hok : Ok policy c)
  (h : Refines policy dedupeKey creates c)
include hkey hok h

/-- The timer of the entry commits its record; any other timer of the key
commits nothing. -/
theorem expire_commits
    (hhandled : Handled policy c env (.expire (dedupeKey, none) number) result) :
    commits result.2 = if (timerOf creates).any (·.number = number) then (best creates).toList
    else [] := by
  obtain ⟨timer, hmem, hnumber, -, -, -, hflush⟩ := hhandled.expired hok
  have hcurrent := h.current_iff hok hmem
  rw [hnumber] at hcurrent
  rcases hflush with ⟨entry, hentry, hgeneration, -, hcommits⟩ | ⟨hstale, -, hcommits⟩
  · have hinbox : entry.inbox = best creates := by rw [← h.entry_bind.1, hentry]; rfl
    rw [if_pos (hcurrent.mp ⟨entry, hentry, hgeneration⟩), hcommits, hinbox]
    cases hbest : best creates with
    | none => rfl
    | some record =>
      -- an attention record repeats no turn
      have hkind : record.kind ≠ .turnCompleted :=
        attentionKind hkey (hok.filed hentry (hinbox.trans hbest))
      simp [Pending.repeatsReportedTurn, hinbox, hbest, hkind]
  · rw [hcommits, if_neg]
    intro hany
    obtain ⟨entry, hentry, hgeneration⟩ := hcurrent.mpr hany
    exact hstale entry hentry hgeneration

/-- What is committed under an attention key is the record of its entry, by
the expiry of the entry's timer, once the debounce has passed. -/
theorem committed {event : Event} (hhandled : Handled policy c env event result)
    (hrecord : record ∈ commits result.2) (hdedupe : record.dedupeKey = some dedupeKey) :
    ∃ last, timerOf creates = some last ∧ event = .expire (dedupeKey, none) last.number ∧
      last.time + policy.debounce ≤ env.now ∧ best creates = some record ∧
      commits result.2 = [record] := by
  cases hhandled with
  | defer _ deferred =>
    cases hown : deferred.record.dedupeKey with
    | none =>
      rw [defer_keyless hown] at hrecord
      cases hinbox : deferred.inbox <;> simp [hinbox, commits, Effect.committed] at hrecord
      rw [hrecord, hown] at hdedupe
      simp at hdedupe
    | some key =>
      rw [defer_key hown] at hrecord
      simp at hrecord
  | resolve hnumber key asOf =>
    obtain ⟨-, -, -, hturn⟩ := resolve_closed policy env _ (c.arrive env.now _) key asOf
    exact absurd (hturn record hrecord) (not_ofTurn hkey (hok.arrive hnumber) hdedupe)
  | @expire number key timer htimer =>
    have htoken : timer.token.key = key := token_key htimer
    obtain ⟨other, turn⟩ := key
    cases turn with
    | some turn =>
      have hturn : OfTurn (c.take env.now (other, some turn) number) record :=
        (flush_frame (by rw [htoken]; simp)).2 record hrecord
      exact absurd (show OfTurn c record from hturn) (not_ofTurn hkey hok hdedupe)
    | none =>
      have hhandled : Handled policy c env (.expire (other, none) number) _ := .expire htimer
      obtain ⟨own, hmem, hnumber, hdeadline, -, -, hflush⟩ := hhandled.expired hok
      by_cases hsame : other = dedupeKey
      · subst hsame
        have hcommits := expire_commits hkey hok h hhandled
        rw [hcommits] at hrecord
        split at hrecord
        · rename_i hany
          obtain ⟨last, hlast, heq⟩ := (any_eq_true _ _).mp hany
          rw [decide_eq_true_eq] at heq
          have hbest : best creates = some record := mem_toList.mp hrecord
          -- the timer that expired is the one the last create armed
          obtain ⟨entry, -, -, -, hlastMem⟩ := h.pending hlast
          have howned := hok.eq_of_number hlastMem hmem (heq.trans hnumber.symm)
          refine ⟨last, hlast, by rw [heq], ?_, hbest, by rw [hcommits, if_pos hany, hbest]; rfl⟩
          rw [← howned] at hdeadline
          exact hdeadline
        · simp at hrecord
      · -- a record of the entry of another key
        exfalso
        rcases hflush with ⟨entry, hentry, -, -, hcommits⟩ | ⟨-, -, hcommits⟩
        · rw [hcommits] at hrecord
          have hinbox := (filter_eq_some_iff.mp (mem_toList.mp hrecord)).1
          exact hsame (some.inj ((hok.filed hentry hinbox).dedupeKey.symm.trans hdedupe))
        · rw [hcommits] at hrecord
          simp at hrecord

end

/-! ### Chains along a run -/

/-- The label of an inbox create of the key. -/
def Creates (dedupeKey : String) (l : Label Input (List Effect)) (create : Create) : Prop :=
  l.call.event = .defer create.number create.deferred ∧ l.call.env.now = create.time ∧
    create.record.dedupeKey = some dedupeKey ∧ create.isInbox

/-- The label of a resolve that ends the chain of the key. -/
def Cancels (dedupeKey : String) (before : Trace) (l : Label Input (List Effect)) : Prop :=
  ∃ number asOf, l.call.event = .resolve number dedupeKey asOf ∧
    cancels asOf (chain dedupeKey before)

/-- The label of a commit under the key. -/
def Commits (dedupeKey : String) (l : Label Input (List Effect)) : Prop :=
  ∃ record ∈ commits l.answer, record.dedupeKey = some dedupeKey

variable {l : Label Input (List Effect)}

theorem chain_create {create : Create} (before : Trace) (h : Creates dedupeKey l create) :
    chain dedupeKey (before ++ [l]) = chain dedupeKey before ++ [create] := by
  obtain ⟨hevent, htime, hkey, hinbox⟩ := h
  have hdefer : create.deferred.inbox := hinbox
  have hrecord : create.deferred.record.dedupeKey = some dedupeKey := hkey
  simp [chain_snoc, keptOut, heldNext, hevent, hrecord, hdefer, htime]

/-- The label of the expiry of the chain's timer. -/
def Flushes (dedupeKey : String) (before : Trace) (l : Label Input (List Effect)) : Prop :=
  ∃ create, timerOf (chain dedupeKey before) = some create ∧
    l.call.event = .expire (dedupeKey, none) create.number

/-- A chain goes on with a create, and ends with a resolve or its timer. -/
theorem chain_cases (before : Trace) (h : ∀ create, ¬ Creates dedupeKey l create) :
    chain dedupeKey (before ++ [l]) = chain dedupeKey before ∨ Cancels dedupeKey before l ∨
      Flushes dedupeKey before l := by
  rw [chain_snoc]
  split
  · exact .inl rfl
  rename_i hinbox
  unfold heldNext
  split
  · rename_i number deferred hevent
    split
    · rename_i hheld
      refine absurd ⟨hevent, rfl, hheld.1, ?_⟩ (h ⟨number, l.call.env.now, deferred⟩)
      simpa [keptOut, hevent, Create.isInbox] using hinbox
    · exact .inl rfl
  · rename_i number key asOf hevent
    split
    · rename_i hcancels
      exact .inr (.inl ⟨number, asOf, by rw [hevent, hcancels.1], hcancels.2⟩)
    · exact .inl rfl
  · rename_i key number hevent
    split
    · rename_i hexpire
      obtain ⟨create, hcreate, hnumber⟩ := (any_eq_true _ _).mp hexpire.2
      rw [decide_eq_true_eq] at hnumber
      exact .inr (.inr ⟨create, hcreate, by rw [hevent, hexpire.1, hnumber]⟩)
    · exact .inl rfl

variable {before : Trace}

theorem chain_cancelled (h : Cancels dedupeKey before l) :
    chain dedupeKey (before ++ [l]) = [] := by
  obtain ⟨number, asOf, hevent, hcancels⟩ := h
  simp [chain_snoc, keptOut, heldNext, hevent, hcancels]

theorem chain_flushed (h : Flushes dedupeKey before l) :
    chain dedupeKey (before ++ [l]) = [] := by
  obtain ⟨create, hcreate, hevent⟩ := h
  simp [chain_snoc, keptOut, heldNext, hevent, hcreate]

theorem chain_isInbox (tr : Trace) :
    (chain dedupeKey tr).filter Create.isInbox = chain dedupeKey tr := by
  induction tr using List.reverseRecOn with
  | nil => rfl
  | append_singleton tr l ih =>
    by_cases hcreate : ∃ create, Creates dedupeKey l create
    · obtain ⟨create, hcreate⟩ := hcreate
      rw [chain_create tr hcreate, filter_append, ih, filter_cons_of_pos hcreate.2.2.2, filter_nil]
    · rcases chain_cases tr (not_exists.mp hcreate) with hsame | hcancel | hflush
      · rw [hsame, ih]
      · rw [chain_cancelled hcancel, filter_nil]
      · rw [chain_flushed hflush, filter_nil]

/-- No chain opens without a create. -/
theorem chain_nil (hnil : chain dedupeKey before = []) : ∀ (later : Trace),
    (∀ m ∈ later, ∀ create, ¬ Creates dedupeKey m create) → chain dedupeKey
    (before ++ later) = [] := by
  intro later
  induction later using List.reverseRecOn with
  | nil => intro _; simpa using hnil
  | append_singleton later m ih =>
    intro hcreate
    have hbefore := ih fun m hm => hcreate m (mem_append_left _ hm)
    rw [← append_assoc]
    rcases chain_cases (before ++ later) (hcreate m (by simp)) with hsame | hcancel | hflush
    · rw [hsame, hbefore]
    · exact chain_cancelled hcancel
    · exact chain_flushed hflush

/-- The chain stays open past what neither resolves it nor is its timer. -/
theorem chain_open {earlier : List Create} {last : Create}
    (hchain : chain dedupeKey before = earlier ++ [last]) : ∀ (later : Trace),
    (∀ m ∈ later, ∀ create, ¬ Creates dedupeKey m create) →
    (∀ m ∈ later, m.call.event ≠ .expire (dedupeKey, none) last.number) →
    (∀ (a : Trace) m (b : Trace), later = a ++ m :: b → ¬ Cancels dedupeKey (before ++ a) m) →
    chain dedupeKey (before ++ later) = earlier ++ [last] := by
  intro later
  induction later using List.reverseRecOn with
  | nil => intro _ _ _; simpa using hchain
  | append_singleton later m ih =>
    intro hcreate hexpire hcancel
    have hbefore := ih (fun m hm => hcreate m (mem_append_left _ hm))
      (fun m hm => hexpire m (mem_append_left _ hm))
      (fun a m' b heq => hcancel a m' (b ++ [m]) (by rw [heq]; simp))
    rw [← append_assoc]
    rcases chain_cases (before ++ later) (hcreate m (by simp)) with
      hsame | hc | ⟨create, hof, hevent⟩
    · rw [hsame, hbefore]
    · exact absurd hc (hcancel later m [] (by simp))
    · obtain rfl : last = create :=
        some.inj ((timerOf_chain ((chain_isInbox _).trans hbefore)).symm.trans hof)
      exact absurd hevent (hexpire m (by simp))

/-! ### Creates that add nothing to the inbox -/

/-- Such a create is the projector's, or no newer than what another producer
contributed to the open chain. -/
def SignalsOlder (dedupeKey : String) (tr : Trace) : Prop :=
  ∀ (before after : Trace) l, tr = before ++ l :: after → ∀ number deferred,
    l.call.event = .defer number deferred →
    deferred.record.dedupeKey = some dedupeKey → deferred.inbox = false → deferred.signal →
    foreign deferred.record →
    ∃ newest, newestForeign (chain dedupeKey before) = some newest ∧ deferred.minted ≤ newest

theorem SignalsOlder.start {tr rest : Trace} (h : SignalsOlder dedupeKey (tr ++ rest)) :
    SignalsOlder dedupeKey tr :=
  fun before after l heq => h before (after ++ rest) l (by rw [heq]; simp)

theorem cancels_congr {creates' : List Create} (h : newestForeign creates = newestForeign creates')
    (asOf : Option ResolveAsOf) : cancels asOf creates = cancels asOf creates' := by
  rw [← Bool.not_inj_iff, ← newestForeign_after, ← newestForeign_after, h]

/-- Then the entry holds the chain, and nothing newer. -/
theorem SignalsOlder.held_eq {tr : Trace} (h : SignalsOlder dedupeKey tr) :
    (held dedupeKey tr).filter Create.isInbox = chain dedupeKey tr ∧
      newestForeign (held dedupeKey tr) = newestForeign (chain dedupeKey tr) := by
  induction tr using List.reverseRecOn with
  | nil => exact ⟨rfl, rfl⟩
  | append_singleton tr l ih =>
    obtain ⟨hinbox, hnewest⟩ := ih h.start
    rw [held_snoc, chain_snoc]
    cases hevent : l.call.event with
    | defer number deferred =>
      by_cases hin : deferred.inbox
      · simp only [keptOut, heldNext, hevent, hin, Bool.not_true, Bool.false_eq_true, if_false]
        split
        · rw [filter_append, hinbox, filter_cons_of_pos (by exact hin), filter_nil,
            newestForeign_snoc, newestForeign_snoc, hnewest]
          exact ⟨rfl, rfl⟩
        · exact ⟨hinbox, hnewest⟩
      · simp only [keptOut, heldNext, hevent, hin, Bool.not_false, if_true]
        split
        · rename_i hheld
          rw [filter_append, hinbox, filter_cons_of_neg (by exact hin), filter_nil, append_nil,
            newestForeign_snoc, hnewest]
          refine ⟨rfl, ?_⟩
          by_cases hforeign : foreign deferred.record
          · obtain ⟨newest, hsome, hle⟩ :=
              h tr [] l rfl number deferred hevent hheld.1 (Bool.eq_false_iff.mpr hin)
              (by simpa [hin] using hheld.2) hforeign
            simp [Create.foreignAt, Create.record, hforeign, hsome, hle]
          · simp [Create.foreignAt, Create.record, hforeign]
        · exact ⟨hinbox, hnewest⟩
    | resolve number key asOf =>
      simp only [keptOut, heldNext, hevent, cancels_congr hnewest, Bool.false_eq_true, if_false]
      split
      · exact ⟨rfl, rfl⟩
      · exact ⟨hinbox, hnewest⟩
    | expire key number =>
      simp only [keptOut, heldNext, hevent, Bool.false_eq_true, if_false]
      rcases eq_nil_or_concat' (chain dedupeKey tr) with hnil | ⟨earlier, last, hchain⟩
      · -- a timer of creates that add nothing to the inbox
        rw [hnil] at hinbox hnewest ⊢
        rw [ite_self]
        split
        · exact ⟨rfl, rfl⟩
        · exact ⟨hinbox, hnewest⟩
      · rw [timerOf_chain (hinbox.trans hchain), timerOf_chain ((chain_isInbox tr).trans hchain)]
        split
        · exact ⟨rfl, rfl⟩
        · exact ⟨hinbox, hnewest⟩

/-! ### The claim on whole runs -/

section Run

variable {tr : Trace} {s : Coordinator}

section

variable (hkey : isAttentionDedupeKey dedupeKey)
include hkey

/-- A commit of the key is its chain's, made by the timer of the chain's last
create. -/
theorem commit_of_chain {before after : Trace}
    (hsignals : SignalsOlder dedupeKey (before ++ l :: after))
    (hrun : Run (StepOf (handle policy)) .new (before ++ l :: after) s)
    {record : NotificationRecord} (hrecord : record ∈ commits l.answer)
    (hdedupe : record.dedupeKey = some dedupeKey) :
    commits l.answer = [record] ∧ chain dedupeKey (before ++ [l]) = [] ∧
      LastOfGreatestRank record (chain dedupeKey before) ∧
      ∃ earlier last, chain dedupeKey before = earlier ++ [last] ∧
        l.call.event = .expire (dedupeKey, none) last.number ∧
        last.time + policy.debounce ≤ l.call.env.now := by
  obtain ⟨t, u, hbefore, hhandled⟩ := handled_at hrun
  obtain ⟨last, hlast, hevent, htime, hbest, hsole⟩ :=
    committed hkey (Ok.run hbefore) (Refines.run hkey hbefore) hhandled hrecord hdedupe
  have hinbox := hsignals.start.held_eq.1
  have hgreatest : LastOfGreatestRank record (chain dedupeKey before) :=
    hinbox ▸ best_greatest hbest
  -- the chain is not empty, so the entry's timer is that of its last create
  have hne : chain dedupeKey before ≠ [] := fun hnil => by
    have hnone := best_eq_none_iff.mpr (hinbox.trans hnil)
    rw [hbest] at hnone
    simp at hnone
  obtain ⟨earlier, own, hown⟩ := (eq_nil_or_concat' (chain dedupeKey before)).resolve_left hne
  obtain rfl : own = last := some.inj ((timerOf_chain (hinbox.trans hown)).symm.trans hlast)
  have hflushes : Flushes dedupeKey before l :=
    ⟨own, timerOf_chain ((chain_isInbox before).trans hown), hevent⟩
  exact ⟨hsole, chain_flushed hflushes, hgreatest, earlier, own, hown, hevent, htime⟩

variable {last : Create}

/-- The timer of an open chain's last create commits. -/
theorem commit_of_expiry {before after : Trace}
    (hsignals : SignalsOlder dedupeKey (before ++ l :: after))
    (hrun : Run (StepOf (handle policy)) .new (before ++ l :: after) s) {earlier : List Create}
    (hchain : chain dedupeKey before = earlier ++ [last])
    (hevent : l.call.event = .expire (dedupeKey, none) last.number) : Commits dedupeKey l := by
  obtain ⟨t, u, hbefore, hhandled⟩ := handled_at hrun
  have href := Refines.run hkey hbefore
  have hok := Ok.run hbefore
  have hinbox := hsignals.start.held_eq.1.trans hchain
  have hof := timerOf_chain hinbox
  have hbest : best (held dedupeKey before) ≠ none := fun hnone => by
    have hnil := best_eq_none_iff.mp hnone
    rw [hinbox] at hnil
    simp at hnil
  obtain ⟨record, hrecord⟩ := ne_none_iff_exists'.mp hbest
  obtain ⟨entry, hentry, hinbox, -, -⟩ := href.pending hof
  refine ⟨record, ?_, (hok.filed hentry (hinbox.trans hrecord)).dedupeKey⟩
  rw [hevent] at hhandled
  have hcommits : commits l.answer = [record] := by
    simpa [hof, hrecord] using expire_commits hkey hok href hhandled
  rw [hcommits]
  exact mem_singleton_self record

/-- The timer of an open chain is in the queue until it expires. -/
theorem timer_armed (hsignals : SignalsOlder dedupeKey tr)
    (hrun : Run (StepOf (handle policy)) .new tr s) {earlier : List Create}
    (hchain : chain dedupeKey tr = earlier ++ [last]) (hclock : s.clock ≤ env.now)
    (hdue : last.time + policy.debounce ≤ env.now) :
    ∃ result, s.handle policy ⟨.expire (dedupeKey, none) last.number, env⟩ = some result := by
  obtain ⟨entry, -, -, -, hmem⟩ :=
    (Refines.run hkey hrun).pending (timerOf_chain (hsignals.held_eq.1.trans hchain))
  obtain ⟨result, hhandled⟩ := handled_of_due hmem hdue
  exact ⟨result, handle_eq_some_iff.mpr ⟨hclock, hhandled⟩⟩

/-- After the last create of a chain, the expiry of its timer commits just
when nothing resolved the entry before. -/
theorem commit_iff {before between after : Trace}
    {first : Label Input (List Effect)}
    (hsignals : SignalsOlder dedupeKey (before ++ first :: between ++ l :: after))
    (hrun : Run (StepOf (handle policy)) .new (before ++ first :: between ++ l :: after) s)
    (hfirst : Creates dedupeKey first last)
    (hcreate : ∀ m ∈ between, ∀ create, ¬ Creates dedupeKey m create)
    (hevent : l.call.event = .expire (dedupeKey, none) last.number) :
    Commits dedupeKey l ↔ ∀ (a : Trace) m (b : Trace), between = a ++ m :: b →
      ¬ Cancels dedupeKey (before ++ first :: a) m := by
  have hopen := chain_create before hfirst
  have happend : ∀ a : Trace, before ++ first :: a = before ++ [first] ++ a := fun a => by simp
  constructor
  · rintro ⟨record, hrecord, hdedupe⟩ a m b rfl hcancels
    obtain ⟨-, -, -, earlier, own, hown, -⟩ := commit_of_chain hkey hsignals hrun hrecord hdedupe
    -- the resolve left no chain, and nothing was created since
    have hnil := chain_nil (chain_cancelled hcancels) b fun m' hm' => hcreate m' (by simp [hm'])
    rw [show before ++ first :: (a ++ m :: b) = before ++ first :: a ++ [m] ++ b by simp,
      hnil] at hown
    simp at hown
  · intro hcancel
    obtain ⟨t, u, hbefore, hhandled⟩ := handled_at hrun
    rw [hevent] at hhandled
    have hexpire : ∀ m ∈ between, m.call.event ≠ .expire (dedupeKey, none) last.number := by
      intro m hm hm'
      -- a timer that expired before is not there to expire again
      obtain ⟨-, hgone⟩ :=
        expired_gone hbefore (show m ∈ before ++ first :: between by simp [hm]) hm'
      obtain ⟨timer, htimer, -⟩ := hhandled.expire_inv
      obtain ⟨-, hnumber, -, a, b, htimers, -⟩ := take_timers htimer
      exact hgone timer (by rw [htimers]; simp) hnumber
    have hchain := chain_open hopen between hcreate hexpire fun a m b heq => happend a ▸
      hcancel a m b heq
    rw [← happend] at hchain
    exact commit_of_expiry hkey hsignals hrun hchain hevent

end

/-- **Debounced attention.** A chain of an attention key are its inbox creates
since it was last flushed or resolved, where a resolve as of a moment before
the newest contribution of another producer leaves it. In a run whose other
creates of the key are no newer than that contribution: a commit under the key
is the only one of its turn of the loop, is made by the timer of the last
create of the open chain, no earlier than the debounce after it, commits the
last record of greatest rank in the chain, and ends the chain; and when the
timer of a chain's last create expires, the chain commits just when no resolve
ended it before. The timer of an open chain can expire from its deadline on. -/
theorem debounced_attention (hkey : isAttentionDedupeKey dedupeKey)
    (hsignals : SignalsOlder dedupeKey tr) (hrun : Run (StepOf (handle policy)) .new tr s) :
    (∀ (before after : Trace) l, tr = before ++ l :: after → ∀ record ∈ commits l.answer,
      record.dedupeKey = some dedupeKey →
      commits l.answer = [record] ∧ chain dedupeKey (before ++ [l]) = [] ∧
        LastOfGreatestRank record (chain dedupeKey before) ∧
        ∃ earlier last, chain dedupeKey before = earlier ++ [last] ∧
          l.call.event = .expire (dedupeKey, none) last.number ∧
          last.time + policy.debounce ≤ l.call.env.now) ∧
    (∀ (before between after : Trace) first l last, tr = before ++ first :: between ++ l :: after →
      Creates dedupeKey first last → (∀ m ∈ between, ∀ create, ¬ Creates dedupeKey m create) →
      l.call.event = .expire (dedupeKey, none) last.number →
      (Commits dedupeKey l ↔ ∀ (a : Trace) m (b : Trace), between = a ++ m :: b →
        ¬ Cancels dedupeKey (before ++ first :: a) m)) ∧
    ∀ earlier last, chain dedupeKey tr = earlier ++ [last] → ∀ env : Env, s.clock ≤ env.now →
      last.time + policy.debounce ≤ env.now →
      ∃ result, s.handle policy ⟨.expire (dedupeKey, none) last.number, env⟩ = some result := by
  refine ⟨?_, ?_, fun earlier last hchain env => timer_armed hkey hsignals hrun hchain⟩
  · rintro before after l rfl record hrecord hdedupe
    exact commit_of_chain hkey hsignals hrun hrecord hdedupe
  · rintro before between after first l last rfl hfirst hcreate hevent
    exact commit_iff hkey hsignals hrun hfirst hcreate hevent

end Run

end AttentionKey

/-! ### Two runs -/

namespace Sample

def policy : Policy := ⟨10⟩

/-- A quiet daemon. -/
def quiet (now : ℕ) : Env where
  now := now
  stdNow := now
  recentlyReported _ _ := false
  settle _ _ := .drop
  settleFirst _ _ := .drop
  currentActivity _ := none
  commitDeferred record _ := some record
  order tokens := ⟨tokens, .refl tokens⟩

def dedupeKey : String := "attention:s-1"

/-- A record of attention for the session `s-1`. -/
def record (id provider : String) : NotificationRecord where
  id := id
  source := ⟨provider, "blocked", "local"⟩
  kind := .agentBlocked
  severity := .warning
  status := .unread
  title := "agent blocked"
  body := ""
  metadata := []
  createdAt := "2026-01-01T00:00:00Z"
  sessionId := some "s-1"
  agentKind := none
  sourceId := none
  dedupeKey := some dedupeKey
  projectId := none
  readAt := none
  ackedAt := none
  archivedAt := none
  deletedAt := none
  supersededBy := none
  hookAdmitted := false

def create (id provider : String) (inbox : Bool) (minted : ℕ) : DeferredNotification where
  record := record id provider
  inbox := inbox
  signal := true
  turn := none
  minted := minted
  valid := by
    show validateReservedDedupeKey (some "s-1") .agentBlocked (some dedupeKey) = .ok ()
    decide +kernel
  ofTurn h := absurd rfl h

/-- The projector reports twice, and a resolve as of a moment comes between. -/
def resolved : List Input :=
  [⟨.defer 1 (create "n-1" "pohunek" true 1), quiet 1⟩,
    ⟨.resolve 2 dedupeKey (some ⟨2, 2⟩), quiet 2⟩,
    ⟨.defer 3 (create "n-2" "pohunek" true 3), quiet 3⟩,
    ⟨.expire (dedupeKey, none) 3, quiet 10000000003⟩]

/-- A provider's report, then one of the projector; the first timer is stale. -/
def outranked : List Input :=
  [⟨.defer 1 (create "n-1" "codex" true 1), quiet 1⟩,
    ⟨.defer 2 (create "n-2" "pohunek" true 2), quiet 2⟩,
    ⟨.expire (dedupeKey, none) 1, quiet 10000000001⟩,
    ⟨.expire (dedupeKey, none) 2, quiet 10000000002⟩]

end Sample

/-- A resolve that stands for a moment divides a chain as any other does: with
two reports of the projector around it, so that no other producer contributed
to the entry, the second report is committed. -/
theorem resolved_chain_commits :
    foreign (Sample.record "n-1" "pohunek") = false ∧ foreign
    (Sample.record "n-2" "pohunek") = false ∧
    ∃ tr s, Run (StepOf (handle Sample.policy)) .new tr s ∧ tr.map (·.call) = Sample.resolved ∧
      tr.map (fun l => commits l.answer) = [[], [], [], [Sample.record "n-2" "pohunek"]] := by
  have hrun := execAll_get (handle Sample.policy) .new Sample.resolved (by decide +kernel)
  exact ⟨by decide +kernel, by decide +kernel, _, _, hrun.1, hrun.2, by decide +kernel⟩

theorem debounced_attention_outranked :
    isAttentionDedupeKey Sample.dedupeKey ∧
    ∃ (before : Trace) (l : Label Input (List Effect)) (s : Coordinator),
      Run (StepOf (handle Sample.policy)) .new (before ++ [l]) s ∧
      LastOfGreatestRank (Sample.record "n-1" "codex") (chain Sample.dedupeKey before) ∧
      chain Sample.dedupeKey (before ++ [l]) = [] := by
  have hkey : isAttentionDedupeKey Sample.dedupeKey := by decide +kernel
  have hexec : ((execAll (handle Sample.policy) .new Sample.outranked).any fun r =>
      r.2.map (fun l => commits l.answer) =
        [[], [], [], [Sample.record "n-1" "codex"]]) = true := by
    decide +kernel
  obtain ⟨tr, s, hrun, hcalls, hcommits⟩ := execAll_any _ hexec
  have hsignals : SignalsOlder Sample.dedupeKey tr := by
    intro before after l htr number deferred hevent _ hsignal
    have hl : l.call ∈ Sample.outranked := hcalls ▸ mem_map_of_mem (by rw [htr]; simp)
    simp only [Sample.outranked, mem_cons, not_mem_nil, or_false] at hl
    rcases hl with hl | hl | hl | hl <;> rw [hl] at hevent <;> cases hevent <;> cases hsignal
  have hsplit : tr.map (fun l => commits l.answer) = [[], [], []] ++
    [[Sample.record "n-1" "codex"]] :=
    of_decide_eq_true hcommits
  obtain ⟨before, last, htr, -, hlast⟩ := map_eq_append_iff.mp hsplit
  obtain ⟨l, hl, hcommit⟩ := map_eq_singleton_iff.mp hlast
  have htrace : tr = before ++ l :: [] := by rw [htr, hl]
  obtain ⟨-, hclosed, hrank, -⟩ := (debounced_attention hkey hsignals hrun).1 before [] l htrace
    (Sample.record "n-1" "codex") (by rw [hcommit]; simp) rfl
  exact ⟨hkey, before, l, s, htrace ▸ hrun, hrank, hclosed⟩

/-- **No held record is stranded.** In every state the coordinator reaches, an
entry has its own timer armed, and that timer, once it is due, takes the entry
away and commits its inbox record, unless the record repeats a reported turn. -/
theorem held_record_flushes {policy : Policy} {tr : Trace} {c : Coordinator} {dedupeKey : String}
    {entry : Pending} (hrun : Run (StepOf (handle policy)) .new tr c)
    (hentry : c.entry dedupeKey = some entry) :
    ∃ timer ∈ c.timers dedupeKey, timer.token.generation = entry.generation ∧
      ∀ env : Env, c.clock ≤ env.now → timer.deadline ≤ env.now →
      ∃ result, c.handle policy ⟨.expire (dedupeKey, none) timer.number, env⟩ = some result ∧
        result.1.entry dedupeKey = none ∧
        commits result.2 = (entry.inbox.filter fun _ => !entry.repeatsReportedTurn env).toList := by
  have hok := Ok.run hrun
  obtain ⟨timer, htimer, hgeneration⟩ := hok.armed hentry
  refine ⟨timer, htimer, hgeneration, fun env hclock hdue => ?_⟩
  obtain ⟨result, hhandled⟩ : ∃ result, Handled policy c env _ result := handled_of_due htimer hdue
  refine ⟨result, handle_eq_some_iff.mpr ⟨hclock, hhandled⟩, ?_⟩
  obtain ⟨fired, hfired, hnumber, -, -, -, hflush⟩ := hhandled.expired hok
  have hcurrent := (hok.number_eq_iff hfired htimer).mp hnumber
  rcases hflush with ⟨own, hown, -, hgone, hcommits⟩ | ⟨hstale, -⟩
  · obtain rfl : own = entry := some.inj (hown.symm.trans hentry)
    exact ⟨hgone, hcommits⟩
  · exact absurd (hgeneration.symm.trans hcurrent.symm) (hstale entry hentry)

theorem held_record_flushes_outranked :
    ∃ tr c, Run (StepOf (handle Sample.policy)) .new tr c ∧
    ∃ timer ∈ c.timers Sample.dedupeKey, ∃ result,
      c.handle Sample.policy ⟨.expire (Sample.dedupeKey, none) timer.number,
        Sample.quiet (c.clock + timer.deadline)⟩ = some result ∧
        result.1.entry Sample.dedupeKey = none := by
  have hrun := (execAll_get (handle Sample.policy) .new (Sample.outranked.take 2)
    (by decide +kernel)).1
  obtain ⟨timer, htimer, -, hfires⟩ :=
    @held_record_flushes _ _ _ Sample.dedupeKey _ hrun (some_get (by decide +kernel)).symm
  obtain ⟨result, hhandle, hgone, -⟩ :=
    hfires (Sample.quiet _) (Nat.le_add_right ..) (Nat.le_add_left ..)
  exact ⟨_, _, hrun, timer, htimer, result, hhandle, hgone⟩

end Pohunek.Attention
