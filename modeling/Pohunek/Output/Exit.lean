/-
# When a subscriber gets its exit

`close` queues the exit of every live subscriber and a late subscriber finds
it queued, so what remains is to read up to it. `Drained` says what one poll
takes: something before the queue, the head of the queue, or nothing; a
measure (`SubscriberState.remaining`) goes down with every event. The one
way to lose the exit is the branch of `next_event` for a replay range that
was evicted: it clears the queue, and a closed hub never queues again. So a
subscriber gets its exit exactly when its replay range is still retained at
the close (`exit_delivery_iff`); a late one always does.
-/
import Pohunek.Output.Fidelity

namespace Pohunek.Output

open Runs SubscriberState OutputHub SubscriberQueue List Function Option

variable {τ : Type} {M : TerminalModel τ}

/-! ### What a subscriber is promised -/

/-- The answer a step gives to the `recv` of subscriber `i`. -/
def Label.answerTo (i : ℕ) : Label → Option RecvResult
  | ⟨.recv j, .received r⟩ => if j = i then some r else none
  | _ => none

/-- The answers of the `recv` calls of subscriber `i`, oldest first. -/
def answers (i : ℕ) (tr : List Label) : List RecvResult := tr.filterMap (Label.answerTo i)

theorem answers_append (i : ℕ) (a b : List Label) :
    answers i (a ++ b) = answers i a ++ answers i b := by
  simp [answers]

theorem answers_single (i : ℕ) (l : Label) : answers i [l] = (l.answerTo i).toList := by
  simp only [answers, filterMap_cons, filterMap_nil]
  cases l.answerTo i <;> rfl

/-- Neither an exit nor the end of the stream. -/
def Unfinished (as : List RecvResult) : Prop := ∀ a ∈ as, a ≠ .ended ∧ ∀ n, a ≠ .event (.exit n)

/-- At most one exit, at offset `n`; no event after it, the end of the stream
only after it. -/
def ExitLaw (n : ℕ) (as : List RecvResult) : Prop :=
  Unfinished as ∨ ∃ pre k, Unfinished pre ∧ as = pre ++ .event (.exit n) :: List.replicate k .ended

/-- What holds of subscriber `i` from the hub `h` on, reached by `tr`: in
every continuation the answers obey the law at the final offset, a live
subscriber can always call `recv`, and enough calls give the exit. -/
def ExitDelivered (M : TerminalModel τ) (i : ℕ) (tr : List Label) (h : OutputHub τ) : Prop :=
  ∀ tr' h', Run (Step M) h tr' h' →
    ExitLaw h'.inner.ring.nextOffset (answers i (tr ++ tr')) ∧
    ((h'.subscribers i).isSome → (∃ r h'', Step M h' ⟨.recv i, .received r⟩ h'') ∧
      ∃ k, ∀ tr'' h'', Run (Step M) h' tr'' h'' → k ≤ (answers i tr'').length →
        .event (.exit h''.inner.ring.nextOffset) ∈ answers i (tr ++ tr' ++ tr''))

/-- The replay range of the subscriber was evicted before it was read. -/
def SubscriberState.Behind (st : SubscriberState) (ring : OutputRing) : Prop :=
  ∃ c, st.replay = some c ∧ c.emptyPending = false ∧ c.next < ring.startOffset

/-- The polls a subscriber needs at most to empty its sources. -/
def SubscriberState.remaining (st : SubscriberState) : ℕ :=
  (match st.replay with
    | none => 0
    | some c => c.stop - c.next + 1) +
  (match st.snapshot with
    | none => 0
    | some c => c.terminal.ansi.length - c.next + (if c.gapPending then 1 else 0)) +
  st.events.length

/-! ### One poll -/

section Poll

variable {st : SubscriberState} {hub : HubState τ} {eventLimit : ℕ}

@[simp] theorem nextQueued_closed (st : SubscriberState) : st.nextQueued.1.closed = st.closed := by
  unfold nextQueued
  split <;> rfl

@[simp] theorem nextRepaint_closed (st : SubscriberState) (eventLimit : ℕ) :
    (st.nextRepaint eventLimit).1.closed = st.closed := by
  fun_cases st.nextRepaint eventLimit <;> simp

@[simp] theorem nextEvent_closed (st : SubscriberState) (hub : HubState τ) (eventLimit : ℕ) :
    (st.nextEvent hub eventLimit).1.closed = st.closed := by
  fun_cases st.nextEvent hub eventLimit <;> simp

/-- What a poll leaves queued was queued, and so was an exit it gives. -/
def TakesFrom (es : List OutputEvent) (r : SubscriberState × Option OutputEvent) : Prop :=
  (∀ e ∈ r.1.events, e ∈ es) ∧ ∀ n, r.2 = some (.exit n) → .exit n ∈ es

theorem nextQueued_takes (st : SubscriberState) : TakesFrom st.events st.nextQueued := by
  unfold nextQueued
  split
  · exact ⟨fun e he => he, by simp⟩
  · rename_i e es hes
    rw [hes]
    refine ⟨fun e' he => mem_cons_of_mem _ he, fun n hn => ?_⟩
    cases hn
    exact mem_cons_self

theorem nextRepaint_takes (st : SubscriberState) (eventLimit : ℕ) :
    TakesFrom st.events (st.nextRepaint eventLimit) := by
  fun_cases st.nextRepaint eventLimit
  · exact nextQueued_takes st
  · exact ⟨fun e he => he, by simp⟩
  · exact ⟨fun e he => he, by simp⟩
  · exact nextQueued_takes { st with snapshot := none }

theorem nextEvent_takes (st : SubscriberState) (hub : HubState τ) (eventLimit : ℕ) :
    TakesFrom st.events (st.nextEvent hub eventLimit) := by
  fun_cases st.nextEvent hub eventLimit
  · exact nextRepaint_takes st eventLimit
  · exact ⟨fun e he => he, by simp⟩
  · exact ⟨fun e he => he, by simp⟩
  · -- the cleared queue of an evicted replay
    obtain ⟨h1, h2⟩ := nextRepaint_takes (mk none (some (SnapshotCursor.new
      ⟨st.expectedOffset, hub.ring.nextOffset⟩ hub.terminalSnapshot)) [] 0 st.expectedOffset
      st.closed) eventLimit
    exact ⟨fun e he => absurd (h1 e he) (by simp), fun n hn => absurd (h2 n hn) (by simp)⟩

/-- What a poll takes from a state whose replay range is retained. -/
inductive Drained (ring : OutputRing) (st : SubscriberState) :
    SubscriberState × Option OutputEvent → Prop
  | ahead (st' : SubscriberState) (e : OutputEvent) (hevents : st'.events = st.events)
      (he : ∀ n, e ≠ .exit n) (hb : ¬ st'.Behind ring) (hless : st'.remaining < st.remaining) :
      Drained ring st (st', some e)
  | queued (st' : SubscriberState) (e : OutputEvent)
      (hr : st.replay = none) (hc : st.snapshot = none)
      (hevents : st.events = e :: st'.events) (hr' : st'.replay = none)
      (hc' : st'.snapshot = none) : Drained ring st (st', some e)
  | empty (hr : st.replay = none) (hc : st.snapshot = none) (hevents : st.events = []) :
      Drained ring st (st, none)

theorem not_behind_of_none {ring : OutputRing} (hr : st.replay = none) : ¬ st.Behind ring := by
  rintro ⟨c, hc, _⟩
  rw [hr] at hc
  simp at hc

theorem nextEvent_drains {s : List UInt8} {painted : TerminalSnapshot → Prop}
    {closed : Bool} {v : View} (hring : hub.ring.Retains s) (hlimit : 0 < eventLimit)
    (h : StateOk s painted closed v st) (hb : ¬ st.Behind hub.ring) :
    Drained hub.ring st (st.nextEvent hub eventLimit) := by
  unfold nextEvent
  cases h.sources with
  | replay c hr hc _ _ _ hempty hq =>
    rw [hr]
    simp only
    split
    · refine .ahead _ _ rfl (by simp) (not_behind_of_none rfl) ?_
      simp only [remaining, hr]
      omega
    · rename_i he
      have hlt : c.next < c.stop := by
        rw [hempty, decide_eq_true_eq] at he
        omega
      rcases OutputRing.chunk_spec hring eventLimit hlt hq.le with ⟨hgone, -⟩ | ⟨hkept, hch⟩
      · exact absurd ⟨c, hr, by simpa using he, hgone⟩ hb
      · have hs := hq.le
        have hfits := hring.fits
        have hend : (⟨c.next, s.extract c.next (min c.stop (c.next + eventLimit))⟩ :
            OutputChunk).endOffset = min c.stop (c.next + eventLimit) := by
          have hlen : (s.extract c.next (min c.stop (c.next + eventLimit))).length =
              min c.stop (c.next + eventLimit) - c.next := by
            simp only [List.extract, length_take, length_drop]; omega
          simp only [OutputChunk.endOffset, hlen]
          rw [satAdd_eq (by omega)]
          omega
        rw [hch]
        refine .ahead _ _ rfl (by simp) ?_ ?_
        · rintro ⟨c', hc', -, hlt'⟩
          split at hc'
          · simp at hc'
          · cases hc'
            simp only at hlt'
            omega
        · simp only [remaining, hr]
          split
          · omega
          · rename_i c' hsome
            split at hsome
            · simp at hsome
            · cases hsome
              simp only
              omega
  | gap T hr hc =>
    rw [hr]
    simp only [nextRepaint, hc, SnapshotCursor.new, if_true]
    refine .ahead _ _ rfl (by simp) (not_behind_of_none hr) ?_
    simp [remaining, hr, hc, SnapshotCursor.new]
  | repaint T n missing hr hc _ _ hn =>
    rw [hr]
    simp only [nextRepaint, hc, Bool.false_eq_true, if_false, if_pos hn]
    refine .ahead _ _ rfl (by simp) (not_behind_of_none hr) ?_
    simp only [remaining, hr, hc, Bool.false_eq_true, if_false]
    by_cases hdone : min (n + eventLimit) T.ansi.length = T.ansi.length
    · simp only [if_pos hdone]
      omega
    · simp only [if_neg hdone, Bool.false_eq_true, if_false]
      omega
  | live hr hc _ hq =>
    rw [hr]
    simp only [nextRepaint, hc, nextQueued]
    split
    · rename_i hes
      exact .empty hr hc hes
    · rename_i e es hes
      exact .queued _ e hr hc hes hr rfl

end Poll

/-! ### `recv` of a closed subscriber -/

section Recv

variable {q q' : SubscriberQueue} {hub : HubState τ} {r : RecvResult}

/-- On a closed subscriber one pass decides: an event or the end. -/
theorem recv_of_closed (hclosed : q.state.closed) (hrecv : q.recv hub = (q', r)) :
    q'.state = (q.state.nextEvent hub q.eventLimit).1 ∧ q'.parked = false ∧
      r = match (q.state.nextEvent hub q.eventLimit).2 with
        | some e => .event e
        | none => .ended := by
  have hc := nextEvent_closed q.state hub q.eventLimit
  unfold recv poll at hrecv
  rcases hne : q.state.nextEvent hub q.eventLimit with ⟨st', _ | e⟩ <;> rw [hne] at hrecv hc
  · simp only at hc
    rw [hclosed] at hc
    simp only [hc, if_true, Prod.mk.injEq] at hrecv
    obtain ⟨rfl, rfl⟩ := hrecv
    exact ⟨rfl, rfl, rfl⟩
  · obtain ⟨rfl, rfl⟩ := hrecv
    exact ⟨rfl, rfl, rfl⟩

theorem poll_closed (q : SubscriberQueue) (hub : HubState τ) :
    (q.poll hub).1.state.closed = q.state.closed := by
  rw [poll_queue]
  exact nextEvent_closed q.state hub q.eventLimit

theorem poll_unfinished (hub : HubState τ) (hopen : q.state.closed = false)
    (hq : ∀ n, .exit n ∉ q.state.events) : (q.poll hub).2 ≠ .ended ∧
      (∀ n, (q.poll hub).2 ≠ .event (.exit n)) ∧ ∀ n, .exit n ∉ (q.poll hub).1.state.events := by
  obtain ⟨h1, h2⟩ := nextEvent_takes q.state hub q.eventLimit
  have hc := nextEvent_closed q.state hub q.eventLimit
  unfold poll
  rcases hne : q.state.nextEvent hub q.eventLimit with ⟨st', _ | e⟩ <;> rw [hne] at h1 h2 hc
  · simp only at hc
    simp only [hc, hopen, Bool.false_eq_true, if_false]
    exact ⟨by simp, by simp, fun n hn => hq n (h1 _ hn)⟩
  · refine ⟨by simp, fun n hn => ?_, fun n hn => hq n (h1 _ hn)⟩
    simp only [RecvResult.event.injEq] at hn
    exact hq n (h2 n (by rw [hn]))

/-- An open subscriber with no exit queued is told neither the exit nor the
end. -/
theorem recv_unfinished (hopen : q.state.closed = false) (hq : ∀ n, .exit n ∉ q.state.events)
    (hrecv : q.recv hub = (q', r)) :
    q'.state.closed = false ∧ r ≠ .ended ∧ ∀ n, r ≠ .event (.exit n) := by
  obtain ⟨h1, h2, h3⟩ := poll_unfinished hub hopen hq
  have hc := (poll_closed q hub).trans hopen
  rcases recv_cases q hub with hr | ⟨-, hr⟩ <;> rw [hr] at hrecv
  · rw [hrecv] at h1 h2 hc
    exact ⟨hc, h1, h2⟩
  · have h4 := poll_unfinished (q := { (q.poll hub).1 with permit := false }) hub hc h3
    have hc' := poll_closed { (q.poll hub).1 with permit := false } hub
    rw [hrecv] at h4 hc'
    exact ⟨hc'.trans hc, h4.1, h4.2.1⟩

end Recv

/-! ### While the hub is open -/

section Open

variable {rows cols : UInt16} {tr : List Label} {h h' : OutputHub τ} {i : ℕ}

/-- A live subscriber is closed exactly when the hub is, and then it is not
parked for good. -/
structure Flagged (h : OutputHub τ) : Prop where
  closed : ∀ i q, h.subscribers i = some q → q.state.closed = h.inner.completion.isSome
  ready : h.inner.completion.isSome → ∀ i q, h.subscribers i = some q → q.parked → q.permit

theorem Queued.no_exit {s : List UInt8} : ∀ {a : ℕ} {es : List OutputEvent}, Queued s false a es →
    ∀ n, .exit n ∉ es
  | _, [], _, _ => by simp
  | _, .output _ :: _, ⟨_, _, h⟩, n => by simpa using h.no_exit n
  | _, .exit _ :: _, ⟨h, _⟩, _ => by simp at h

theorem StateOk.no_exit {s : List UInt8} {painted : TerminalSnapshot → Prop} {v : View}
    {st : SubscriberState} (h : StateOk s painted false v st) : ∀ n, .exit n ∉ st.events := by
  obtain ⟨a, -, hq⟩ := h.queued
  exact hq.no_exit

theorem SubscribersOk.state (hok : SubscribersOk M rows cols tr h) (ok : HubOk M rows cols tr h)
    {q : SubscriberQueue} (hq : h.subscribers i = some q) :
    0 < q.eventLimit ∧
      ∃ v, StateOk (pushed tr) (Painted M rows cols tr) h.inner.completion.isSome v q.state := by
  obtain ⟨v, -, -, hs⟩ := hok.tracked i (ok.alive i q hq)
  exact ⟨(hs q hq).1, v, (hs q hq).2⟩

/-- While the hub is open nobody is told the exit or the end, and a handle
that was not given out has no answers. -/
structure Quiet (tr : List Label) (h : OutputHub τ) : Prop where
  unfinished : h.inner.completion = none → ∀ i, Unfinished (answers i tr)
  unheard : ∀ i, h.handles ≤ i → answers i tr = []

theorem unfinished_nil : Unfinished [] := by simp [Unfinished]

theorem Unfinished.append {a b : List RecvResult} (ha : Unfinished a) (hb : Unfinished b) :
    Unfinished (a ++ b) :=
  forall_mem_append.mpr ⟨ha, hb⟩

/-- A queue that was kept or changed at one handle. -/
theorem Flagged.update (hf : Flagged h) {q' : SubscriberQueue}
    (hclosed : q'.state.closed = h.inner.completion.isSome)
    (hready : h.inner.completion.isSome → q'.parked → q'.permit) :
    Flagged { h with subscribers := Function.update h.subscribers i (some q') } := by
  have hall : ∀ j r, Function.update h.subscribers i (some q') j = some r →
      r.state.closed = h.inner.completion.isSome ∧
      (h.inner.completion.isSome → r.parked → r.permit) := by
    intro j r hj
    by_cases hji : j = i
    · subst hji
      simp only [Function.update_self, Option.some.injEq] at hj
      exact hj ▸ ⟨hclosed, hready⟩
    · simp only [Function.update_of_ne hji] at hj
      exact ⟨hf.closed j r hj, fun hc => hf.ready hc j r hj⟩
  exact ⟨fun j r hj => (hall j r hj).1, fun hc j r hj => (hall j r hj).2 hc⟩

theorem Flagged.register (hf : Flagged h) (seed : QueueSeed) :
    Flagged (h.registerSubscriber seed).1 := by
  have hclosed : (h.seeded seed).state.closed = h.inner.completion.isSome := by
    unfold seeded
    cases h.inner.completion <;> rfl
  have hparked : (h.seeded seed).parked = false := by
    unfold seeded
    cases h.inner.completion <;> rfl
  have hup := hf.update (i := h.handles) hclosed (fun _ hp => by rw [hparked] at hp; simp at hp)
  exact ⟨by simpa using hup.closed, by simpa using hup.ready⟩

variable (hf : Flagged h) (hok : SubscribersOk M rows cols tr h) (ok : HubOk M rows cols tr h)
include hf hok ok

/-- The flags of the queue after a `recv`. -/
theorem recv_flags {q q' : SubscriberQueue} {result : RecvResult} (hq : h.subscribers i = some q)
    (hrecv : q.recv h.inner = (q', result)) :
    q'.state.closed = h.inner.completion.isSome ∧
    (h.inner.completion.isSome → q'.parked → q'.permit) := by
  have hc := hf.closed i q hq
  obtain ⟨-, v, hst⟩ := hok.state ok hq
  cases hcc : h.inner.completion with
  | none =>
    rw [hcc] at hc hst
    exact ⟨(recv_unfinished hc hst.no_exit hrecv).1, by simp⟩
  | some c =>
    rw [hcc] at hc
    obtain ⟨hs, hp, -⟩ := recv_of_closed hc hrecv
    refine ⟨by rw [hs, nextEvent_closed]; exact hc, fun _ hp' => ?_⟩
    rw [hp] at hp'
    simp at hp'

theorem flagged_effect {l : Label} (he : Effect M (pushed tr) h l h') : Flagged h' := by
  cases he with
  | refused | pushedNothing | closedBefore | rejected | observe => exact hf
  | resize | answerProbes => exact ⟨hf.closed, hf.ready⟩
  | push bytes ring probe hne hopen =>
    refine ⟨fun i q' hq' => ?_, fun hc => by simp [hopen] at hc⟩
    obtain ⟨q, hq, rfl⟩ := map_eq_some_iff.mp hq'
    refine Eq.trans ?_ (hf.closed i q hq)
    unfold pushOutput
    simp only
    split <;> rfl
  | close reason c probe hopen =>
    refine ⟨fun i q' hq' => ?_, fun _ i q' hq' _ => ?_⟩
    · obtain ⟨q, -, rfl⟩ := map_eq_some_iff.mp hq'
      rfl
    · obtain ⟨q, -, rfl⟩ := map_eq_some_iff.mp hq'
      rfl
  | subscribe | subscribeSnapshot => exact hf.register _
  | recv i q q' result hq _ hrecv =>
    obtain ⟨h1, h2⟩ := recv_flags hf hok ok hq hrecv
    exact hf.update h1 h2
  | drop i q hq =>
    have hsub : ∀ j r, update h.subscribers i none j = some r → h.subscribers j = some r := by
      intro j r hj
      by_cases hji : j = i
      · subst hji; simp at hj
      · rwa [update_of_ne hji] at hj
    exact ⟨fun j r hj => hf.closed j r (hsub j r hj),
      fun hc j r hj => hf.ready hc j r (hsub j r hj)⟩

theorem quiet_effect (hquiet : Quiet tr h) {l : Label} (he : Effect M (pushed tr) h l h') :
    Quiet (tr ++ [l]) h' := by
  have hopen : h'.inner.completion = none → h.inner.completion = none := fun hopen' => by
    cases hc : h.inner.completion with
    | none => rfl
    | some c => rw [he.completion hc] at hopen'; simp at hopen'
  -- the step's own answer: it comes from a live queue, and an open hub's queue has no exit
  have hown : (h.inner.completion = none → ∀ i, Unfinished (answers i [l])) ∧
      h.handles ≤ h'.handles ∧ ∀ i, h.handles ≤ i → answers i [l] = [] := by
    cases he with
    | recv j q q' result hq _ hrecv =>
      refine ⟨fun hopen i => ?_, le_rfl, fun i hi => ?_⟩
      · obtain ⟨-, v, hst⟩ := hok.state ok hq
        have hc := hf.closed j q hq
        rw [hopen] at hst hc
        obtain ⟨-, h1, h2⟩ := recv_unfinished hc hst.no_exit hrecv
        rw [answers_single]
        simp only [Label.answerTo]
        split
        · intro a ha
          simp only [toList_some, mem_singleton] at ha
          subst ha
          exact ⟨h1, h2⟩
        · exact unfinished_nil
      · have hj := ok.alive j q hq
        rw [answers_single, Label.answerTo, if_neg (by omega)]
        rfl
    | subscribe | subscribeSnapshot =>
      exact ⟨fun _ _ => unfinished_nil, by simp, fun _ _ => rfl⟩
    | refused | pushedNothing | push | resize | closedBefore | close | rejected | drop | observe
    | answerProbes => exact ⟨fun _ _ => unfinished_nil, le_rfl, fun _ _ => rfl⟩
  refine ⟨fun ho i => ?_, fun i hi => ?_⟩
  · rw [answers_append]
    exact (hquiet.unfinished (hopen ho) i).append (hown.1 (hopen ho) i)
  · have hi' := hown.2.1.trans hi
    rw [answers_append, hquiet.unheard i hi', hown.2.2 i hi']
    rfl

omit hf hok ok in
/-- The flags and the silence of an open hub, in every run. -/
theorem flagged_run {historyLimit subscriberLimit : ℕ}
    (hr : HubRun M historyLimit subscriberLimit rows cols tr h) : Flagged h ∧ Quiet tr h := by
  obtain ⟨h0, hnew, hrun⟩ := hr
  refine Run.history ?_ ?_ hrun
  · obtain ⟨-, -, rfl⟩ := new_ok hnew
    exact ⟨⟨by simp, by simp⟩, fun _ _ => unfinished_nil, fun _ _ => rfl⟩
  · intro tr t l u hrun' ⟨hf, hquiet⟩ hs
    have hr' : HubRun M historyLimit subscriberLimit rows cols tr t := ⟨h0, hnew, hrun'⟩
    have ok := hubOk_run hr'
    have hok := subscribersOk_run hr'
    have he := step_effect M ok hs
    exact ⟨flagged_effect hf hok ok he, quiet_effect hf hok ok hquiet he⟩

end Open

/-! ### After the close -/

section Closed

variable {rows cols : UInt16} {tr : List Label} {h h' : OutputHub τ} {i n : ℕ}
    {c : OutputCompletion}

/-- What a step of a closed hub can do to subscriber `i`: nothing, drop it,
or answer its `recv`. -/
theorem closed_cases {s : List UInt8} {l : Label} (he : Effect M s h l h')
    (hc : h.inner.completion = some c) (hi : i < h.handles) :
    h'.inner.ring = h.inner.ring ∧ i < h'.handles ∧
    ((answers i [l] = [] ∧ (h'.subscribers i = h.subscribers i ∨ h'.subscribers i = none)) ∨
      ∃ q q' r, answers i [l] = [r] ∧ h.subscribers i = some q ∧ q.recv h.inner = (q', r) ∧
        h'.subscribers i = some q') := by
  cases he with
  | push _ _ _ _ hopen => rw [hopen] at hc; simp at hc
  | close _ _ _ hopen => rw [hopen] at hc; simp at hc
  | subscribe | subscribeSnapshot =>
    refine ⟨by simp, by simp; omega, .inl ⟨rfl, .inl ?_⟩⟩
    rw [register_subscribers, update_of_ne (by omega)]
  | recv j q q' r hq _ hrecv =>
    refine ⟨rfl, hi, ?_⟩
    by_cases hj : j = i
    · subst hj
      exact .inr ⟨q, q', r, by simp [answers, Label.answerTo], hq, hrecv, by simp⟩
    · refine .inl ⟨by simp [answers, Label.answerTo, hj], .inl ?_⟩
      simp only [update_of_ne (Ne.symm hj)]
  | drop j q hq =>
    refine ⟨rfl, hi, .inl ⟨rfl, ?_⟩⟩
    by_cases hj : i = j
    · subst hj; exact .inr (by simp)
    · exact .inl (by simp only [update_of_ne hj])
  | refused | pushedNothing | closedBefore | rejected | observe =>
    exact ⟨rfl, hi, .inl ⟨rfl, .inl rfl⟩⟩
  | resize | answerProbes => exact ⟨rfl, hi, .inl ⟨rfl, .inl rfl⟩⟩

/-- Where a live subscriber of a closed hub is: its exit is queued, or it was
given and nothing is left. -/
inductive Phase (n : ℕ) (as : List RecvResult) (st : SubscriberState) : Prop
  | draining (hun : Unfinished as) (hexit : .exit n ∈ st.events)
  | done (pre : List RecvResult) (k : ℕ) (hun : Unfinished pre)
      (has : as = pre ++ .event (.exit n) :: List.replicate k .ended)
      (hr : st.replay = none) (hc : st.snapshot = none) (hevents : st.events = [])

theorem Phase.law {as : List RecvResult} {st : SubscriberState} : Phase n as st → ExitLaw n as
  | .draining hun _ => .inl hun
  | .done pre k hun has _ _ _ => .inr ⟨pre, k, hun, has⟩

variable {q : SubscriberQueue}

/-- One `recv` of a closed subscriber whose replay range is retained. -/
theorem phase_recv {q' : SubscriberQueue} {hub : HubState τ} {r : RecvResult} {as : List RecvResult}
    {s : List UInt8} {painted : TerminalSnapshot → Prop} {v : View} (hring : hub.ring.Retains s)
    (hn : s.length = n) (hlimit : 0 < q.eventLimit) (hclosed : q.state.closed)
    (hst : StateOk s painted true v q.state) (hb : ¬ q.state.Behind hub.ring)
    (hph : Phase n as q.state) (hrecv : q.recv hub = (q', r)) :
    ¬ q'.state.Behind hub.ring ∧ Phase n (as ++ [r]) q'.state ∧
      (.event (.exit n) ∈ as ++ [r] ∨ q'.state.remaining + 1 ≤ q.state.remaining) := by
  obtain ⟨hs, -, hres⟩ := recv_of_closed hclosed hrecv
  have hd := nextEvent_drains hring hlimit hst hb
  generalize q.state.nextEvent hub q.eventLimit = out at hs hres hd
  rw [hs]
  have hnew : ∀ e : OutputEvent, (∀ n, e ≠ .exit n) → Unfinished [.event e] := fun e he a ha => by
    simp only [mem_singleton] at ha
    subst ha
    exact ⟨by simp, fun n hn => he n (by simpa using hn)⟩
  cases hph with
  | done pre k hun has hr hc hev =>
    -- nothing is left: the poll answers the end
    cases hd with
    | ahead st' e hevents he hb' hless => simp [remaining, hr, hc, hev] at hless
    | queued st' e _ _ hevents => rw [hev] at hevents; simp at hevents
    | empty hr hc hevents =>
      subst hres
      refine ⟨hb, .done pre (k + 1) hun ?_ hr hc hevents, .inl ?_⟩
      · rw [has, append_assoc, cons_append, ← replicate_succ']
      · rw [has]; simp
  | draining hun hexit =>
    cases hd with
    | ahead st' e hevents he hb' hless =>
      subst hres
      exact ⟨hb', .draining (hun.append (hnew e he)) (hevents ▸ hexit), .inr hless⟩
    | queued st' e hr hc hevents hr' hc' =>
      subst hres
      have hq : Queued s true v.position q.state.events := by
        cases hst.sources with
        | live _ _ _ hq => exact hq
        | replay c h1 => rw [hr] at h1; simp at h1
        | gap T _ h1 => rw [hc] at h1; simp at h1
        | repaint T m x _ h1 => rw [hc] at h1; simp at h1
      have hless : st'.remaining + 1 ≤ q.state.remaining := by
        simp [remaining, hr, hc, hr', hc', hevents]
      rw [hevents] at hq hexit
      refine ⟨not_behind_of_none hr', ?_⟩
      cases e with
      | output chunk =>
        have hexit' : .exit n ∈ st'.events := by simpa using hexit
        exact ⟨.draining (hun.append (hnew _ (by simp))) hexit', .inr hless⟩
      | exit m =>
        obtain ⟨-, hnil, -, hm⟩ := hq
        have hmn : m = n := hm.trans hn
        subst hmn
        exact ⟨.done as 0 hun rfl hr' hc' hnil, .inl (by simp)⟩
      | replay | gap | terminalSnapshot => exact hq.elim
    | empty hr hc hevents => rw [hevents] at hexit; simp at hexit

/-- The exit of subscriber `i` is on its way. -/
structure Delivery (n i : ℕ) (tr : List Label) (h : OutputHub τ) : Prop where
  known : i < h.handles
  law : ExitLaw n (answers i tr)
  live : ∀ q, h.subscribers i = some q → ¬ q.state.Behind h.inner.ring ∧
    Phase n (answers i tr) q.state

/-- The polls a subscriber may still need; none once it was dropped. -/
def pendingFor (h : OutputHub τ) (i : ℕ) : ℕ :=
  match h.subscribers i with
  | none => 0
  | some q => q.state.remaining

theorem delivery_effect (ok : HubOk M rows cols tr h) (hok : SubscribersOk M rows cols tr h)
    (hf : Flagged h) (hc : h.inner.completion = some c) (hd : Delivery c.nextOffset i tr h)
    {l : Label} (he : Effect M (pushed tr) h l h') :
    Delivery c.nextOffset i (tr ++ [l]) h' ∧ (.event (.exit c.nextOffset) ∈ answers i (tr ++ [l]) ∨
        pendingFor h' i + (answers i [l]).length ≤ pendingFor h i) := by
  obtain ⟨hring, hknown, ⟨hno, hsub⟩ | ⟨q, q', r, hr, hq, hrecv, hq'⟩⟩ :=
    closed_cases he hc hd.known
  · have hsame : answers i (tr ++ [l]) = answers i tr := by rw [answers_append, hno, append_nil]
    refine ⟨⟨hknown, hsame ▸ hd.law, fun q hq => ?_⟩, .inr ?_⟩
    · rw [hsame, hring]
      rcases hsub with hsub | hsub
      · exact hd.live q (hsub ▸ hq)
      · rw [hsub] at hq; simp at hq
    · rw [hno]
      unfold pendingFor
      rcases hsub with hsub | hsub <;> simp [hsub]
  · obtain ⟨hlimit, v, hst⟩ := hok.state ok hq
    have hclosed := hf.closed i q hq
    rw [hc] at hst hclosed
    obtain ⟨hb, hph⟩ := hd.live q hq
    obtain ⟨hb', hph', hless⟩ :=
      phase_recv ok.ring (ok.sealed c hc).symm hlimit hclosed hst hb hph hrecv
    rw [answers_append, hr]
    refine ⟨⟨hknown, by rw [answers_append, hr]; exact hph'.law, fun q'' hq'' => ?_⟩, ?_⟩
    · rw [hq'] at hq''
      cases hq''
      rw [hring, answers_append, hr]
      exact ⟨hb', hph'⟩
    · simpa [pendingFor, hq, hq'] using hless

variable {historyLimit subscriberLimit : ℕ}

/-- A closed hub never keeps a live subscriber waiting. -/
theorem recv_enabled (hf : Flagged h) (hc : h.inner.completion.isSome)
    (hq : h.subscribers i = some q) : Step M h ⟨.recv i, .received (q.recv h.inner).2⟩
      { h with subscribers := update h.subscribers i (some (q.recv h.inner).1) } := by
  have hready := hf.ready hc i q hq
  change h.exec M (.recv i) = _
  simp only [exec, hq]
  rw [if_neg (fun hp => hp.2 (hready hp.1))]

section

variable (hr : HubRun M historyLimit subscriberLimit rows cols tr h)
    (hc : h.inner.completion = some c)
  (hd : Delivery c.nextOffset i tr h)
include hr hc hd

/-- **A delivery under way stays so,** and every poll brings the exit nearer. -/
theorem delivery_run {tr' : List Label} (hr' : Run (Step M) h tr' h') :
    Delivery c.nextOffset i (tr ++ tr') h' ∧ (.event (.exit c.nextOffset) ∈ answers i (tr ++ tr') ∨
        pendingFor h' i + (answers i tr').length ≤ pendingFor h i) := by
  induction hr' with
  | refl => exact ⟨by simpa using hd, .inr (by simp [answers])⟩
  | @snoc t u tr' l hrun hs ih =>
    have hr1 := hr.append hrun
    have ok := hubOk_run hr1
    obtain ⟨hd1, hless⟩ := ih
    obtain ⟨hd2, hless'⟩ := delivery_effect ok (subscribersOk_run hr1) (flagged_run hr1).1
      (hr.sealed hc hrun).1 hd1 (step_effect M ok hs)
    rw [← append_assoc]
    refine ⟨hd2, ?_⟩
    rcases hless' with hexit | hless'
    · exact .inl hexit
    · rcases hless with hexit | hless
      · exact .inl (by rw [answers_append]; exact mem_append_left _ hexit)
      · right
        rw [answers_append, length_append]
        omega

/-- A delivery under way is what the subscriber was promised. -/
theorem delivery_delivered : ExitDelivered M i tr h := by
  intro tr' h' hr'
  have hr1 := hr.append hr'
  obtain ⟨hc', hlen⟩ := hr.sealed hc hr'
  have hnext : h'.inner.ring.nextOffset = c.nextOffset := by
    rw [(hubOk_run hr1).ring.next, hlen]
  obtain ⟨hd', -⟩ := delivery_run hr hc hd hr'
  refine ⟨hnext ▸ hd'.law, fun hlive => ?_⟩
  obtain ⟨q, hq⟩ := isSome_iff_exists.mp hlive
  refine ⟨⟨_, _, recv_enabled (flagged_run hr1).1 (by simp [hc']) hq⟩, pendingFor h' i + 1, ?_⟩
  intro tr'' h'' hr'' hk
  have hnext' : h''.inner.ring.nextOffset = c.nextOffset := by
    rw [(hubOk_run (hr1.append hr'')).ring.next, (hr1.sealed hc' hr'').2]
  obtain ⟨-, hexit | hless⟩ := delivery_run hr1 hc' hd' hr''
  · exact hnext' ▸ hexit
  · omega

end

/-- The exit of a closed subscriber is lost, or will be at its next poll. -/
def Lost (q : SubscriberQueue) (ring : OutputRing) : Prop :=
  q.state.closed ∧ (q.state.Behind ring ∨ q.state.replay = none ∧ q.state.events = [])

theorem nextRepaint_empty {st : SubscriberState} (eventLimit : ℕ) (hr : st.replay = none)
    (he : st.events = []) :
    (st.nextRepaint eventLimit).1.replay = none ∧ (st.nextRepaint eventLimit).1.events = [] := by
  fun_cases st.nextRepaint eventLimit
  · simp [nextQueued, hr, he]
  · exact ⟨hr, he⟩
  · exact ⟨hr, he⟩
  · simp [nextQueued, hr, he]

/-- An evicted replay clears the queue, and nothing fills it again. -/
theorem lost_recv {q' : SubscriberQueue} {hub : HubState τ} {r : RecvResult} (hl : Lost q hub.ring)
    (hrecv : q.recv hub = (q', r)) : Lost q' hub.ring ∧ ∀ n, r ≠ .event (.exit n) := by
  obtain ⟨hclosed, hst⟩ := hl
  obtain ⟨hs, -, hres⟩ := recv_of_closed hclosed hrecv
  have hclosed' : q'.state.closed = true := by rw [hs, nextEvent_closed]; exact hclosed
  -- either way the poll reads the repaint cursor over an empty queue
  obtain ⟨st, hr, he, hne⟩ : ∃ st : SubscriberState, st.replay = none ∧ st.events = [] ∧
      q.state.nextEvent hub q.eventLimit = st.nextRepaint q.eventLimit := by
    unfold nextEvent
    rcases hst with ⟨c, hr, he, hlt⟩ | ⟨hr, he⟩
    · have hch : hub.ring.chunk c.next c.stop q.eventLimit = none := if_pos (.inl hlt)
      rw [hr]
      simp only [he, Bool.false_eq_true, if_false, hch]
      exact ⟨_, rfl, rfl, rfl⟩
    · rw [hr]
      exact ⟨q.state, hr, he, rfl⟩
  obtain ⟨h1, h2⟩ := nextRepaint_empty q.eventLimit hr he
  obtain ⟨-, hexit⟩ := nextRepaint_takes st q.eventLimit
  rw [hne] at hs hres
  refine ⟨⟨hclosed', .inr ⟨hs ▸ h1, hs ▸ h2⟩⟩, fun n hn => ?_⟩
  rw [hres] at hn
  split at hn
  · rename_i e hsome
    simp only [RecvResult.event.injEq] at hn
    have := hexit n (hn ▸ hsome)
    rw [he] at this
    simp at this
  · simp at hn

variable (hr : HubRun M historyLimit subscriberLimit rows cols tr h)
    (hc : h.inner.completion = some c)
  (hq : h.subscribers i = some q) (hl : Lost q h.inner.ring)
include hr hc hq hl

/-- A subscriber whose exit is lost can poll as often as it likes. -/
theorem lost_run :
    ∀ k, ∃ tr' h' q', Run (Step M) h tr' h' ∧ (answers i tr').length = k ∧
      (∀ n, .event (.exit n) ∉ answers i tr') ∧ h'.subscribers i = some q' ∧ Lost q' h'.inner.ring
  | 0 => ⟨[], h, q, .refl h, rfl, by simp [answers], hq, hl⟩
  | k + 1 => by
    obtain ⟨tr', h', q', hr', hlen, hno, hq', hl'⟩ := lost_run k
    have hs := recv_enabled (M := M) (flagged_run (hr.append hr')).1
      (by simp [(hr.sealed hc hr').1]) hq'
    obtain ⟨hl'', hres⟩ : Lost (q'.recv h'.inner).1 h'.inner.ring ∧
        ∀ n, (q'.recv h'.inner).2 ≠ .event (.exit n) := lost_recv hl' rfl
    have hone : answers i [⟨.recv i, .received (q'.recv h'.inner).2⟩] = [(q'.recv h'.inner).2] := by
      simp [answers, Label.answerTo]
    refine ⟨_, _, _, hr'.snoc hs, ?_, fun n hn => ?_, update_self _ _ _, hl''⟩
    · rw [answers_append, hone, length_append, hlen]
      rfl
    · rw [answers_append, hone] at hn
      rcases mem_append.mp hn with hn | hn
      · exact hno n hn
      · exact hres n (mem_singleton.mp hn).symm

theorem lost_not_delivered (hun : Unfinished (answers i tr)) : ¬ ExitDelivered M i tr h := by
  intro hd
  obtain ⟨-, hlive⟩ := hd [] h (.refl h)
  obtain ⟨-, k, hk⟩ := hlive (by simp [hq])
  obtain ⟨tr', h', q', hr', hlen, hno, -, -⟩ := lost_run hr hc hq hl k
  have hmem := hk tr' h' hr' hlen.ge
  rw [append_nil, answers_append] at hmem
  rcases mem_append.mp hmem with hmem | hmem
  · exact (hun _ hmem).2 _ rfl
  · exact hno _ hmem

end Closed

/-! ### Who gets the exit -/

section Law

variable {rows cols : UInt16} {tr : List Label} {h h' : OutputHub τ} {i : ℕ} {c : OutputCompletion}
  {historyLimit subscriberLimit : ℕ} (hr : HubRun M historyLimit subscriberLimit rows cols tr h)
include hr

/-- A subscriber that is there at the close. -/
theorem exit_at_close {q : SubscriberQueue} {reason : OutputCloseReason}
    (hopen : h.inner.completion = none) (hq : h.subscribers i = some q)
    (hs : Step M h ⟨.close reason, .closed c⟩ h') :
    ExitDelivered M i (tr ++ [⟨.close reason, .closed c⟩]) h' ↔ ¬ q.state.Behind h.inner.ring := by
  have ok := hubOk_run hr
  have hr' := hr.append (Run.single hs)
  have hun : Unfinished (answers i (tr ++ [⟨.close reason, .closed c⟩])) := by
    rw [answers_append]
    exact ((flagged_run hr).2.unfinished hopen i).append unfinished_nil
  cases step_effect M ok hs with
  | closedBefore _ _ hclosed => rw [hopen] at hclosed; simp at hclosed
  | close _ _ probe _ hc =>
    have hq' : (h.subscribers i).map (fun q => q.pushTerminal (pushed tr).length) =
        some (q.pushTerminal (pushed tr).length) := by rw [hq]; rfl
    constructor
    · intro hd hb
      exact lost_not_delivered hr' rfl hq' ⟨rfl, .inl hb⟩ hun hd
    · intro hb
      refine delivery_delivered hr' rfl ⟨ok.alive i q hq, .inl hun, fun q'' hq'' => ?_⟩
      cases hq'.symm.trans hq''
      refine ⟨hb, .draining hun ?_⟩
      rw [hc]
      simp [pushTerminal]

/-- A subscriber of a closed hub finds its exit queued and its replay range
retained. -/
theorem exit_of_register {seed : QueueSeed} {call : Call} (hc : h.inner.completion = some c)
    (hs : Step M h ⟨call, .subscribed (.ok h.handles)⟩ (h.registerSubscriber seed).1)
    (hseed : ¬ (new h.subscriberLimit seed).state.Behind h.inner.ring) :
    ExitDelivered M h.handles (tr ++ [⟨call, .subscribed (.ok h.handles)⟩])
      (h.registerSubscriber seed).1 := by
  have hun : answers h.handles (tr ++ [⟨call, .subscribed (.ok h.handles)⟩]) = [] := by
    rw [answers_append, (flagged_run hr).2.unheard _ le_rfl, nil_append]
    cases call <;> rfl
  refine delivery_delivered (hr.append (Run.single hs)) (c := c) (by simpa using hc)
    ⟨by simp, hun ▸ .inl unfinished_nil, fun q hq => ?_⟩
  rw [register_subscribers, update_self] at hq
  cases hq
  rw [(register_fields _ _).1, hun]
  unfold seeded
  rw [hc]
  exact ⟨hseed, .draining unfinished_nil (by simp [pushTerminal])⟩

theorem exit_after_close {call : Call} (hc : h.inner.completion = some c)
    (hs : Step M h ⟨call, .subscribed (.ok i)⟩ h') :
    ExitDelivered M i (tr ++ [⟨call, .subscribed (.ok i)⟩]) h' := by
  cases step_effect M (hubOk_run hr) hs with
  | subscribe afterOffset seed hle hseed =>
    refine exit_of_register hr hc hs ?_
    rw [hseed]
    split
    · exact not_behind_of_none rfl
    · rintro ⟨cur, hcur, -, hlt⟩
      cases hcur
      simp only [ReplayCursor.new] at hlt
      omega
  | subscribeSnapshot => exact exit_of_register hr hc hs (not_behind_of_none rfl)

/-- **Exit delivery.** A subscriber that is there when the hub closes is
delivered its exit, in every continuation, exactly when its replay range was
not evicted at that moment; a subscriber that comes later always is. -/
theorem exit_delivery_iff :
    (h.inner.completion = none → ∀ i q reason c h', h.subscribers i = some q →
      Step M h ⟨.close reason, .closed c⟩ h' →
      (ExitDelivered M i (tr ++ [⟨.close reason, .closed c⟩]) h' ↔ ¬ q.state.Behind h.inner.ring)) ∧
    (h.inner.completion.isSome → ∀ call i h', Step M h ⟨call, .subscribed (.ok i)⟩ h' →
      ExitDelivered M i (tr ++ [⟨call, .subscribed (.ok i)⟩]) h') := by
  refine ⟨fun hopen i q reason c h' hq hs => exit_at_close hr hopen hq hs,
    fun hc call i h' hs => ?_⟩
  obtain ⟨c, hc⟩ := isSome_iff_exists.mp hc
  exact exit_after_close hr hc hs

end Law

/-- A subscriber whose two bytes of replay are still retained at the close is
delivered its exit. -/
theorem exit_delivery_retained : ∃ tr h, HubRun blankTerminal 2 64 2 10 tr h ∧
    h.inner.completion.isSome ∧ ExitDelivered blankTerminal 0 tr h := by
  have hr : HubRun blankTerminal 2 64 2 10
      [⟨.push [97, 98], .pushed (.ok ⟨0, [97, 98]⟩)⟩, ⟨.subscribe none, .subscribed (.ok 0)⟩] _ :=
    ⟨_, rfl, execAll_run (exec blankTerminal) [.push [97, 98], .subscribe none] rfl⟩
  have hr' := hr.append (Run.single
    (show Step blankTerminal _ ⟨.close .eof, .closed (.eof 2)⟩ _ from rfl))
  refine ⟨_, _, hr', rfl, ((exit_delivery_iff hr).1 rfl 0 _ .eof (.eof 2) _ rfl rfl).mpr ?_⟩
  rintro ⟨c, hc, -, hlt⟩
  cases hc
  exact absurd hlt (by decide)

/-- The replay of two bytes is pending when two more evict them and the hub
closes: the subscriber is given the gap, the repaint and the end. -/
theorem exit_lost_after_eviction : ∃ tr h chunk, HubRun blankTerminal 2 64 2 10 tr h ∧
    answers 0 tr = [.event (.gap ⟨0, 4⟩ 4), .event (.terminalSnapshot chunk), .ended] ∧
    ¬ ExitLaw h.inner.ring.nextOffset (answers 0 tr) := by
  let screen := blankTerminal.snapshot (2, 10) 4
  let chunk : TerminalChunk := ⟨screen, 0, 7, screen.ansi⟩
  let tr : List Label := [⟨.push [97, 98], .pushed (.ok ⟨0, [97, 98]⟩)⟩,
    ⟨.subscribe none, .subscribed (.ok 0)⟩, ⟨.push [99, 100], .pushed (.ok ⟨2, [99, 100]⟩)⟩,
    ⟨.close .eof, .closed (.eof 4)⟩, ⟨.recv 0, .received (.event (.gap ⟨0, 4⟩ 4))⟩,
    ⟨.recv 0, .received (.event (.terminalSnapshot chunk))⟩, ⟨.recv 0, .received .ended⟩]
  obtain ⟨h, hr⟩ : ∃ h, HubRun blankTerminal 2 64 2 10 tr h :=
    ⟨_, _, rfl, execAll_run (exec blankTerminal)
      [.push [97, 98], .subscribe none, .push [99, 100], .close .eof, .recv 0, .recv 0,
      .recv 0] rfl⟩
  have hans : answers 0 tr = [.event (.gap ⟨0, 4⟩ 4), .event (.terminalSnapshot chunk), .ended] :=
    rfl
  refine ⟨tr, h, chunk, hr, hans, ?_⟩
  rw [hans]
  rintro (hun | ⟨pre, k, -, has⟩)
  · exact (hun .ended (by simp)).1 rfl
  · have hmem : RecvResult.event (.exit h.inner.ring.nextOffset) ∈
        [.event (.gap ⟨0, 4⟩ 4), .event (.terminalSnapshot chunk), .ended] := by rw [has]; simp
    simp at hmem

end Pohunek.Output
