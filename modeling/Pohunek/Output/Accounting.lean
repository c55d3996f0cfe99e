/-
# The counters of the hub

Ring, terminal and queues advance together in every call, so their counters
agree in every hub a run reaches: the ring is full of the last bytes of the
stream, the repaint kept for new subscribers has the ring's next offset as its
watermark, and a queue counts the bytes of the events it holds and has room for
them (`Counted`). What `HubOk` says of the trace is used; what is added is the
limits, which no call changes, and the counts.
-/
import Pohunek.Output.Steps

namespace Pohunek.Output

open OutputHub SubscriberQueue

variable {τ : Type} {M : TerminalModel τ}

/-! ### The ring is full -/

/-- No byte is evicted that would fit. -/
theorem OutputRing.push_start {r r' : OutputRing} {s bs : List UInt8} {c : OutputChunk}
    (h : r.Retains s) (hfull : r.startOffset = r.nextOffset - r.limit)
    (hpush : r.push bs = (r', .ok c)) : r'.startOffset = r'.nextOffset - r'.limit := by
  have hlen := h.length
  unfold OutputRing.push at hpush
  split at hpush
  · rw [OutputRing.evict_spec _ _ _ (by rw [List.length_append]; omega)] at hpush
    cases hpush
    simp only [List.length_append]
    omega
  · cases hpush

/-! ### What a queue counts -/

/-- The bytes of the queued events. -/
def payload (events : List OutputEvent) : ℕ := (events.map OutputEvent.payloadBytes).sum

@[simp] theorem payload_nil : payload [] = 0 := rfl

@[simp] theorem payload_cons (e : OutputEvent) (es : List OutputEvent) :
    payload (e :: es) = e.payloadBytes + payload es := by
  simp [payload]

@[simp] theorem payload_append (es es' : List OutputEvent) :
    payload (es ++ es') = payload es + payload es' := by
  simp [payload]

/-- The queued events are counted, and fit. -/
structure SubscriberState.Counted (limit : ℕ) (st : SubscriberState) : Prop where
  sum : st.queuedBytes = payload st.events
  within : st.queuedBytes ≤ limit

variable {limit : ℕ} {st : SubscriberState}

theorem nextQueued_counted (h : st.Counted limit) : st.nextQueued.1.Counted limit := by
  have hsum := h.sum
  have hwithin := h.within
  unfold SubscriberState.nextQueued
  cases hev : st.events with
  | nil => exact h
  | cons e es =>
    rw [hev, payload_cons] at hsum
    exact ⟨by simp [hsum], by simp only; omega⟩

theorem nextRepaint_counted (eventLimit : ℕ) (h : st.Counted limit) :
    (st.nextRepaint eventLimit).1.Counted limit := by
  unfold SubscriberState.nextRepaint
  split
  · exact nextQueued_counted h
  · split
    · exact ⟨h.sum, h.within⟩
    · split
      · exact ⟨h.sum, h.within⟩
      · exact nextQueued_counted ⟨h.sum, h.within⟩

theorem nextEvent_counted (hub : HubState τ) (eventLimit : ℕ) (h : st.Counted limit) :
    (st.nextEvent hub eventLimit).1.Counted limit := by
  unfold SubscriberState.nextEvent
  split
  · exact nextRepaint_counted eventLimit h
  · split
    · exact ⟨h.sum, h.within⟩
    · split
      · exact ⟨h.sum, h.within⟩
      · -- an evicted cursor empties the queue
        exact nextRepaint_counted eventLimit ⟨rfl, Nat.zero_le _⟩

/-- A queue of the hub: its limit is the hub's, and its events are counted. -/
structure SubscriberQueue.Counted (subscriberLimit : ℕ) (q : SubscriberQueue) : Prop where
  limit : q.limit = subscriberLimit
  state : q.state.Counted subscriberLimit

variable {q : SubscriberQueue}

theorem poll_counted (hub : HubState τ) (h : q.Counted limit) :
    (q.poll hub).1.Counted limit := by
  rw [poll_queue]
  exact ⟨h.limit, nextEvent_counted hub q.eventLimit h.state⟩

theorem recv_counted (hub : HubState τ) (h : q.Counted limit) :
    (q.recv hub).1.Counted limit := by
  have hpoll := poll_counted hub h
  rcases recv_cases q hub with hr | ⟨-, hr⟩ <;> rw [hr]
  · exact hpoll
  · exact poll_counted hub ⟨hpoll.limit, hpoll.state⟩

/-- A chunk that does not fit empties the queue. -/
theorem pushOutput_counted (chunk : OutputChunk) (terminal : TerminalSnapshot)
    (h : q.Counted limit) : (q.pushOutput chunk terminal).Counted limit := by
  unfold pushOutput
  refine ⟨h.limit, ?_⟩
  simp only
  split
  · exact ⟨rfl, Nat.zero_le _⟩
  · rename_i hfits
    rw [h.limit, not_lt] at hfits
    exact ⟨by simp [h.state.sum, OutputEvent.payloadBytes], hfits⟩

theorem pushTerminal_counted (nextOffset : ℕ) (h : q.Counted limit) :
    (q.pushTerminal nextOffset).Counted limit :=
  ⟨h.limit, by simp [pushTerminal, h.state.sum, OutputEvent.payloadBytes], h.state.within⟩

theorem seeded_counted (h : OutputHub τ) (seed : QueueSeed) :
    (h.seeded seed).Counted h.subscriberLimit := by
  have hnew : (new h.subscriberLimit seed).Counted h.subscriberLimit := ⟨rfl, rfl, Nat.zero_le _⟩
  unfold seeded
  split
  · exact pushTerminal_counted _ hnew
  · exact hnew

/-! ### Every run -/

/-- The limits of the hub are those it was made with, its ring is full, and its
queues are counted. -/
structure Accounted (historyLimit subscriberLimit : ℕ) (h : OutputHub τ) : Prop where
  history : h.inner.ring.limit = historyLimit
  full : h.inner.ring.startOffset = h.inner.ring.nextOffset - h.inner.ring.limit
  subscriber : h.subscriberLimit = subscriberLimit
  queues : ∀ i q, h.subscribers i = some q → q.Counted subscriberLimit

variable {historyLimit subscriberLimit : ℕ} {rows cols : UInt16} {tr : List Label}
    {h h' : OutputHub τ}

/-- A push replaces the ring by the ring's own push, or leaves it. -/
theorem push_ring (ok : HubOk M rows cols tr h) (bytes : List UInt8) :
    (h.push M bytes).1.inner.ring = h.inner.ring ∨
      ∃ c, h.inner.ring.push bytes = ((h.push M bytes).1.inner.ring, .ok c) := by
  unfold push
  split
  · exact .inl rfl
  · rcases OutputRing.push_spec ok.ring bytes with ⟨-, hr⟩ | ⟨ring, hr, -⟩
    · rw [hr]; exact .inl rfl
    · rw [hr]
      dsimp only
      split <;> exact .inr ⟨_, rfl⟩

theorem push_full (ok : HubOk M rows cols tr h)
    (hfull : h.inner.ring.startOffset = h.inner.ring.nextOffset - h.inner.ring.limit)
    (bytes : List UInt8) : (h.push M bytes).1.inner.ring.startOffset =
      (h.push M bytes).1.inner.ring.nextOffset - (h.push M bytes).1.inner.ring.limit := by
  rcases push_ring ok bytes with hsame | ⟨c, hring⟩
  · rw [hsame]; exact hfull
  · exact OutputRing.push_start ok.ring hfull hring

/-- A queue replaced or removed. -/
theorem Accounted.update (ha : Accounted historyLimit subscriberLimit h) (i : ℕ)
    {new : Option SubscriberQueue} (hnew : ∀ q ∈ new, q.Counted subscriberLimit) :
    Accounted historyLimit subscriberLimit
    { h with subscribers := Function.update h.subscribers i new } := by
  refine ⟨ha.history, ha.full, ha.subscriber, fun j q hj => ?_⟩
  by_cases hji : j = i
  · subst hji
    simp only [Function.update_self] at hj
    exact hnew q hj
  · simp only [Function.update_of_ne hji] at hj
    exact ha.queues j q hj

theorem Accounted.register (ha : Accounted historyLimit subscriberLimit h) (seed : QueueSeed) :
    Accounted historyLimit subscriberLimit (h.registerSubscriber seed).1 := by
  have hup := ha.update h.handles fun (q : SubscriberQueue) (hq : q ∈ some (h.seeded seed)) => by
    cases hq
    exact ha.subscriber ▸ seeded_counted h seed
  exact ⟨by simpa using ha.history, by simpa using ha.full,
      by simpa using ha.subscriber, by simpa using hup.queues⟩

theorem accounted_step {l : Label} (ok : HubOk M rows cols tr h)
    (ha : Accounted historyLimit subscriberLimit h) (hs : Step M h l h') :
    Accounted historyLimit subscriberLimit h' := by
  cases step_effect M ok hs with
  | refused | pushedNothing | closedBefore | rejected | observe => exact ha
  | resize | answerProbes => exact ⟨ha.history, ha.full, ha.subscriber, ha.queues⟩
  | push bytes ring probe hne hopen hring hlimit hstart =>
    have hexec := hs
    have hfull := push_full ok ha.full bytes
    rw [congrArg Prod.fst (Option.some.inj hexec)] at hfull
    refine ⟨hlimit.trans ha.history, hfull, ha.subscriber, fun i q' hq' => ?_⟩
    obtain ⟨q, hq, rfl⟩ := Option.map_eq_some_iff.mp hq'
    exact pushOutput_counted _ _ (ha.queues i q hq)
  | close reason c probe hopen hc =>
    refine ⟨ha.history, ha.full, ha.subscriber, fun i q' hq' => ?_⟩
    obtain ⟨q, hq, rfl⟩ := Option.map_eq_some_iff.mp hq'
    exact pushTerminal_counted _ (ha.queues i q hq)
  | subscribe | subscribeSnapshot => exact ha.register _
  | recv i q q' result hq hready hrecv =>
    refine ha.update i fun q'' hq'' => ?_
    cases hq''
    have hcounted := recv_counted h.inner (ha.queues i q hq)
    rw [hrecv] at hcounted
    exact hcounted
  | drop i q hq => exact ha.update i fun _ hnone => absurd hnone (Option.not_mem_none _)

theorem accounted_run (hr : HubRun M historyLimit subscriberLimit rows cols tr h) :
    Accounted historyLimit subscriberLimit h := by
  obtain ⟨h0, hnew, hrun⟩ := hr
  have hboth : HubOk M rows cols tr h ∧ Accounted historyLimit subscriberLimit h := by
    refine Runs.Run.history ⟨hubOk_new hnew, ?_⟩ ?_ hrun
    · obtain ⟨-, -, rfl⟩ := new_ok hnew
      exact ⟨rfl, (Nat.zero_sub _).symm, rfl, fun i q hq => by cases hq⟩
    · intro tr t l u _ hinv hs
      exact ⟨hubOk_effect hinv.1 (step_effect M hinv.1 hs), accounted_step hinv.1 hinv.2 hs⟩
  exact hboth.2

/-- **The representation of the hub.** Ring, repaint and queues agree in every
hub a run reaches, the completion is set once, and a refused push changes
nothing. -/
theorem hub_representation (hr : HubRun M historyLimit subscriberLimit rows cols tr h) :
    (h.inner.ring.startOffset + h.inner.ring.bytes.length = h.inner.ring.nextOffset ∧
      h.inner.ring.bytes.length ≤ historyLimit ∧ h.inner.ring.nextOffset = (pushed tr).length ∧
      h.inner.ring.bytes = (pushed tr).drop ((pushed tr).length - historyLimit)) ∧
    h.inner.terminalSnapshot.watermark = h.inner.ring.nextOffset ∧
    (∀ i q, h.subscribers i = some q →
      q.state.queuedBytes = (q.state.events.map OutputEvent.payloadBytes).sum ∧
      q.state.queuedBytes ≤ q.limit ∧ q.limit = subscriberLimit) ∧
    (∀ c, h.inner.completion = some c → ∀ tr' h', Runs.Run (Step M) h tr' h' →
      h'.inner.completion = some c) ∧
    ∀ bytes e, (h.push M bytes).2 = .error e → (h.push M bytes).1 = h := by
  have ok := hubOk_run hr
  have ha := accounted_run hr
  refine ⟨⟨ok.ring.length, ha.history ▸ ok.ring.bound, ok.ring.next, ?_⟩, ?_, fun i q hq => ?_,
    fun c hc tr' h' hrun => (hr.sealed hc hrun).1, fun bytes e he => ?_⟩
  · rw [ok.ring.bytes, ha.full, ha.history, ok.ring.next]
  · rw [ok.snapshot, ok.ring.next]; rfl
  · have hq' := ha.queues i q hq
    exact ⟨hq'.state.sum, hq'.limit ▸ hq'.state.within, hq'.limit⟩
  · have heffect := push_effect M ok bytes
    cases hpush : h.push M bytes with
    | mk h' r =>
      rw [hpush] at he heffect
      cases he
      cases heffect with
      | refused => rfl

def smallHub : OutputHub (UInt16 × UInt16) :=
  ⟨⟨OutputRing.new 3, (2, 10), blankTerminal.snapshot (2, 10) 0, [], none, none⟩, 4,
    fun _ => none, 0⟩

/-- Pushes beyond both limits, a read, and a refused push after the end. -/
theorem hub_representation_sample : ∃ tr h, HubRun blankTerminal 3 4 2 10 tr h ∧
    h.inner.ring.bytes = [98, 99, 100] ∧ (pushed tr).drop ((pushed tr).length - 3) = [98, 99, 100] ∧
    (∃ q, h.subscribers 0 = some q ∧ q.state.queuedBytes = 2 ∧ q.state.queuedBytes ≤ q.limit) ∧
    (h.push blankTerminal [1]).2 = .error .closed ∧ (h.push blankTerminal [1]).1 = h := by
  have hexec : ((Runs.execAll (exec blankTerminal) smallHub
      [.subscribe none, .recv 0, .push [97, 98], .push [99, 100], .recv 0,
      .close .eof]).any fun x =>
      x.1.inner.ring.bytes = [98, 99, 100] && (x.1.subscribers 0).any
      (fun q => q.state.queuedBytes = 2) &&
        (x.1.push blankTerminal [1]).2 = .error .closed) = true := by decide +kernel
  obtain ⟨tr, h, hrun, -, hcheck⟩ := Runs.execAll_any _ hexec
  simp only [Bool.and_eq_true, decide_eq_true_eq, Option.any_eq_true] at hcheck
  obtain ⟨⟨hbytes, q, hq, hqueued⟩, hclosed⟩ := hcheck
  have hr : HubRun blankTerminal 3 4 2 10 tr h := ⟨smallHub, rfl, hrun⟩
  obtain ⟨⟨-, -, -, hlast⟩, -, hqueues, -, hrefused⟩ := hub_representation hr
  exact ⟨tr, h, hr, hbytes, hlast.symm.trans hbytes,
    ⟨q, hq, hqueued, (hqueues 0 q hq).2.1⟩, hclosed, hrefused _ _ hclosed⟩

end Pohunek.Output
