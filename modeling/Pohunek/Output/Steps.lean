/-
# What one step of the hub does

The trace of a run determines the stream pushed so far (`pushed`) and the
terminal that was fed with it (`terminalOf`). `HubOk` relates a hub to its
trace; under it every step is one of the cases of `Effect`, which says what
the step does to the ring, the terminal and each queue (`step_effect`). The
invariants of the other modules are proved from these cases and never look
into the calls again.
-/
import Pohunek.Output.Hub

namespace Pohunek.Output

open List

variable {τ : Type} (M : TerminalModel τ)

/-- The bytes a step adds to the stream. -/
def Label.bytes : Label → List UInt8
  | ⟨.push bytes, .pushed (.ok _)⟩ => bytes
  | _ => []

/-- The stream pushed by a trace. -/
def pushed (tr : List Label) : List UInt8 := tr.flatMap Label.bytes

theorem pushed_snoc (tr : List Label) (l : Label) : pushed (tr ++ [l]) = pushed tr ++ l.bytes := by
  simp [pushed]

/-- Most steps add nothing to the stream. -/
theorem pushed_quiet (tr : List Label) {l : Label} (hb : l.bytes = [] := by rfl) :
    pushed (tr ++ [l]) = pushed tr := by
  rw [pushed_snoc, hb, append_nil]

/-- The terminal after a step. -/
def Label.feedTerminal (t : τ) : Label → τ
  | ⟨.push bytes, .pushed (.ok _)⟩ => if bytes = [] then t else (M.takeProbes (M.feed t bytes)).2
  | ⟨.resize rows cols, _⟩ => M.resize t rows cols
  | _ => t

variable (rows cols : UInt16) (tr : List Label)

/-- The terminal made with the given dimensions, after a trace. -/
def terminalOf : τ :=
  tr.foldl (Label.feedTerminal M) (M.new rows cols)

theorem terminalOf_snoc (l : Label) :
    terminalOf M rows cols (tr ++ [l]) = l.feedTerminal M (terminalOf M rows cols tr) := by
  simp [terminalOf]

/-- The snapshot the hub holds after a trace. -/
def snapshotOf : TerminalSnapshot :=
  M.snapshot (terminalOf M rows cols tr) (pushed tr).length

/-! ### A poll -/

namespace SubscriberQueue

variable (q : SubscriberQueue) (hub : HubState τ)

/-- A pass changes the state as `next_event` does, and the queue is parked
or not. -/
theorem poll_queue : (q.poll hub).1 = { q with
    state := (q.state.nextEvent hub q.eventLimit).1, parked := (q.poll hub).1.parked } := by
  unfold poll
  rcases q.state.nextEvent hub q.eventLimit with ⟨state, _ | event⟩
  · simp only
    split <;> rfl
  · rfl

/-- `recv` is one pass, or two when the first found nothing and a permit. -/
theorem recv_cases : q.recv hub = q.poll hub ∨
    (q.poll hub).2 = .pending ∧ q.recv hub = { (q.poll hub).1 with permit := false }.poll hub := by
  unfold recv
  rcases q.poll hub with ⟨q', _ | _ | _⟩
  · exact .inl rfl
  · exact .inl rfl
  · dsimp only
    split
    · exact .inr ⟨rfl, rfl⟩
    · exact .inl rfl

end SubscriberQueue

namespace OutputHub

/-! ### The hub and its trace -/

/-- The hub after a trace: the ring retains the stream, the snapshot is the
terminal's at the stream's end, and an open hub knows every live queue. -/
structure HubOk (rows cols : UInt16) (tr : List Label) (h : OutputHub τ) : Prop where
  ring : h.inner.ring.Retains (pushed tr)
  terminal : h.inner.terminal = terminalOf M rows cols tr
  snapshot : h.inner.terminalSnapshot = snapshotOf M rows cols tr
  nodup : h.inner.subscribers.Nodup
  known : ∀ i ∈ h.inner.subscribers, i < h.handles
  alive : ∀ i q, h.subscribers i = some q → i < h.handles
  listed : h.inner.completion = none → ∀ i q, h.subscribers i = some q → i ∈ h.inner.subscribers
  sealed : ∀ c, h.inner.completion = some c → c.nextOffset = (pushed tr).length

theorem notifyAll_apply (f : SubscriberQueue → SubscriberQueue) (j : ℕ) :
    ∀ (handles : List ℕ) (queues : ℕ → Option SubscriberQueue), handles.Nodup →
      notifyAll f handles queues j = if j ∈ handles then (queues j).map f else queues j
  | [], _, _ => by simp [notifyAll]
  | i :: handles, queues, hn => by
    obtain ⟨hi, hn⟩ := nodup_cons.mp hn
    rw [notifyAll]
    cases hq : queues i with
    | none =>
      simp only
      rw [notifyAll_apply f j handles queues hn]
      by_cases hj : j = i
      · subst hj; simp [hi, hq]
      · simp [hj]
    | some q =>
      simp only
      rw [notifyAll_apply f j handles _ hn]
      by_cases hj : j = i
      · subst hj; simp [hi, hq]
      · simp [hj]

variable {rows cols : UInt16} {tr : List Label} {h h' : OutputHub τ}

/-- An open hub notifies every live queue. -/
theorem HubOk.notifyAll (ok : HubOk M rows cols tr h) (hopen : h.inner.completion = none)
    (f : SubscriberQueue → SubscriberQueue) :
    OutputHub.notifyAll f h.inner.subscribers h.subscribers = fun j => (h.subscribers j).map f := by
  funext j
  rw [notifyAll_apply f j _ _ ok.nodup]
  split
  · rfl
  · rename_i hj
    cases hq : h.subscribers j with
    | none => rfl
    | some q => exact absurd (ok.listed hopen j q hq) hj

/-! ### The cases of a step -/

/-- What a step can do to a hub whose stream is `s`. -/
inductive Effect (s : List UInt8) (h : OutputHub τ) : Label → OutputHub τ → Prop
  | refused (bytes : List UInt8) (e : RingError) : Effect s h ⟨.push bytes, .pushed (.error e)⟩ h
  | pushedNothing (c : OutputChunk) : Effect s h ⟨.push [], .pushed (.ok c)⟩ h
  | push (bytes : List UInt8) (ring : OutputRing) (probe : Option ProbeResponder)
      (hne : bytes ≠ []) (hopen : h.inner.completion = none) (hring : ring.Retains (s ++ bytes))
      (hlimit : ring.limit = h.inner.ring.limit)
      (hstart : h.inner.ring.startOffset ≤ ring.startOffset) :
      Effect s h ⟨.push bytes, .pushed (.ok ⟨s.length, bytes⟩)⟩
        { h with
          inner := { h.inner with
            ring := ring
            terminal := (M.takeProbes (M.feed h.inner.terminal bytes)).2
            terminalSnapshot := M.snapshot (M.takeProbes (M.feed h.inner.terminal bytes)).2
              (s ++ bytes).length
            subscribers := h.inner.subscribers.filter fun i => (h.subscribers i).isSome
            probe := probe }
          subscribers := fun j => (h.subscribers j).map fun q => q.pushOutput ⟨s.length, bytes⟩
            (M.snapshot (M.takeProbes (M.feed h.inner.terminal bytes)).2 (s ++ bytes).length) }
  | resize (rows cols : UInt16) : Effect s h ⟨.resize rows cols, .done⟩ (h.resize M rows cols)
  | closedBefore (reason : OutputCloseReason) (c : OutputCompletion)
      (hclosed : h.inner.completion = some c) : Effect s h ⟨.close reason, .closed c⟩ h
  | close (reason : OutputCloseReason) (c : OutputCompletion) (probe : Option ProbeResponder)
      (hopen : h.inner.completion = none) (hc : c.nextOffset = s.length) :
      Effect s h ⟨.close reason, .closed c⟩
        { h with
          inner := { h.inner with completion := some c, probe := probe, subscribers := [] }
          subscribers := fun j => (h.subscribers j).map fun q => q.pushTerminal s.length }
  | rejected (afterOffset : Option ℕ) (e : RingError) :
      Effect s h ⟨.subscribe afterOffset, .subscribed (.error e)⟩ h
  | subscribe (afterOffset : Option ℕ) (seed : QueueSeed)
      (hle : afterOffset.getD 0 ≤ s.length)
      (hseed : seed = if afterOffset.getD 0 < h.inner.ring.startOffset
        then .gap ⟨afterOffset.getD 0, s.length⟩ h.inner.terminalSnapshot
        else .replay ⟨afterOffset.getD 0, s.length⟩) :
      Effect s h ⟨.subscribe afterOffset, .subscribed (.ok h.handles)⟩ (h.registerSubscriber seed).1
  | subscribeSnapshot :
      Effect s h ⟨.subscribeTerminalSnapshot, .subscribed (.ok h.handles)⟩
        (h.registerSubscriber (.snapshot h.inner.terminalSnapshot)).1
  | recv (i : ℕ) (q q' : SubscriberQueue) (result : RecvResult) (hq : h.subscribers i = some q)
      (hready : q.parked → q.permit) (hrecv : q.recv h.inner = (q', result)) :
      Effect s h ⟨.recv i, .received result⟩
        { h with subscribers := Function.update h.subscribers i (some q') }
  | drop (i : ℕ) (q : SubscriberQueue) (hq : h.subscribers i = some q) :
      Effect s h ⟨.drop i, .done⟩ { h with subscribers := Function.update h.subscribers i none }
  | observe (afterOffset : Option ℕ) (maxBytes : ℕ) :
      Effect s h ⟨.observe afterOffset maxBytes, .observed (h.inner.observe afterOffset maxBytes)⟩ h
  | answerProbes : Effect s h ⟨.answerProbes, .done⟩ h.answerProbes

section

variable (ok : HubOk M rows cols tr h)
include ok

theorem push_effect (bytes : List UInt8) :
    Effect M (pushed tr) h ⟨.push bytes, .pushed (h.push M bytes).2⟩ (h.push M bytes).1 := by
  unfold OutputHub.push
  by_cases hc : h.inner.completion.isSome ∧ bytes ≠ []
  · rw [if_pos hc]; exact .refused bytes _
  · rw [if_neg hc]
    rcases OutputRing.push_spec ok.ring bytes with ⟨_, hr⟩ | ⟨ring, hr, hring, hlimit, hstart⟩
    · rw [hr]; exact .refused bytes _
    · by_cases hne : bytes = []
      · subst hne
        rw [OutputRing.push_nil ok.ring]
        exact .pushedNothing _
      · have hopen : h.inner.completion = none := by
          cases hcc : h.inner.completion with
          | none => rfl
          | some c => exact absurd ⟨by simp [hcc], hne⟩ hc
        rw [hr]
        simp only [hne, if_false]
        rw [HubOk.notifyAll M ok hopen, hring.next]
        exact .push bytes ring _ hne hopen hring hlimit hstart

theorem close_effect (reason : OutputCloseReason) :
    Effect M (pushed tr) h ⟨.close reason, .closed (h.close reason).2⟩ (h.close reason).1 := by
  unfold OutputHub.close
  cases hc : h.inner.completion with
  | some c => exact .closedBefore reason c hc
  | none =>
    simp only
    rw [HubOk.notifyAll M ok hc, ok.ring.next]
    refine .close reason _ _ hc ?_
    cases reason <;> rfl

theorem subscribe_effect (afterOffset : Option ℕ) :
    Effect M (pushed tr) h ⟨.subscribe afterOffset, .subscribed (h.subscribe afterOffset).2⟩
      (h.subscribe afterOffset).1 := by
  unfold OutputHub.subscribe HubState.subscriptionSeed HubState.validateOffset
  have hnext := ok.ring.next
  by_cases hc : h.inner.ring.nextOffset < afterOffset.getD 0
  · simp only [if_pos hc]
    exact .rejected afterOffset _
  · have hle : afterOffset.getD 0 ≤ (pushed tr).length := by omega
    have hhandle : ∀ seed, (h.registerSubscriber seed).2 = h.handles := fun seed => by
      unfold registerSubscriber; cases h.inner.completion <;> rfl
    simp only [if_neg hc]
    by_cases hg : afterOffset.getD 0 < h.inner.ring.startOffset
    · simp only [bind, Except.bind, if_pos hg, pure, Except.pure, hhandle, hnext]
      exact .subscribe afterOffset _ hle (by rw [if_pos hg])
    · simp only [bind, Except.bind, if_neg hg, pure, Except.pure, hhandle, hnext]
      exact .subscribe afterOffset _ hle (by rw [if_neg hg])

variable {l : Label}

/-- **A step is one of the cases of `Effect`.** -/
theorem step_effect (hs : Step M h l h') : Effect M (pushed tr) h l h' := by
  obtain ⟨call, answer⟩ := l
  change h.exec M call = some (h', answer) at hs
  revert hs
  fun_cases exec M h call with
  | case1 bytes => rintro ⟨⟩; exact push_effect M ok bytes
  | case2 rows cols => rintro ⟨⟩; exact .resize rows cols
  | case3 reason => rintro ⟨⟩; exact close_effect M ok reason
  | case4 afterOffset => rintro ⟨⟩; exact subscribe_effect M ok afterOffset
  | case5 =>
    rintro ⟨⟩
    have : (h.subscribeTerminalSnapshot).2 = h.handles := by
      unfold subscribeTerminalSnapshot registerSubscriber; cases h.inner.completion <;> rfl
    rw [this]
    exact .subscribeSnapshot
  | case8 i q hq hready _ _ hrecv =>
    rintro ⟨⟩
    exact .recv i q _ _ hq (fun hparked => by_contra fun hpermit => hready ⟨hparked, hpermit⟩) hrecv
  | case10 i q hq => rintro ⟨⟩; exact .drop i q hq
  | case11 afterOffset maxBytes => rintro ⟨⟩; exact .observe afterOffset maxBytes
  | case12 => rintro ⟨⟩; exact .answerProbes
  | _ => rintro ⟨⟩

end

/-! ### Registration -/

/-- The queue a new subscriber gets: on a closed hub its exit is queued at
once. -/
def seeded (h : OutputHub τ) (seed : QueueSeed) : SubscriberQueue :=
  match h.inner.completion with
  | some c => (SubscriberQueue.new h.subscriberLimit seed).pushTerminal c.nextOffset
  | none => SubscriberQueue.new h.subscriberLimit seed

section Register

variable (h) (seed : QueueSeed)

@[simp] theorem register_fields : (h.registerSubscriber seed).1.inner.ring = h.inner.ring ∧
    (h.registerSubscriber seed).1.inner.terminal = h.inner.terminal ∧
    (h.registerSubscriber seed).1.inner.terminalSnapshot = h.inner.terminalSnapshot ∧
    (h.registerSubscriber seed).1.subscriberLimit = h.subscriberLimit := by
  unfold registerSubscriber; cases h.inner.completion <;> exact ⟨rfl, rfl, rfl, rfl⟩

@[simp] theorem register_completion :
    (h.registerSubscriber seed).1.inner.completion = h.inner.completion := by
  unfold registerSubscriber; cases hc : h.inner.completion <;> simp [hc]

@[simp] theorem register_handles : (h.registerSubscriber seed).1.handles = h.handles + 1 := by
  unfold registerSubscriber; cases h.inner.completion <;> rfl

@[simp] theorem register_subscribers : (h.registerSubscriber seed).1.subscribers =
    Function.update h.subscribers h.handles (some (h.seeded seed)) := by
  unfold registerSubscriber seeded; cases h.inner.completion <;> rfl

theorem register_listed : (h.registerSubscriber seed).1.inner.subscribers =
    if h.inner.completion = none then h.inner.subscribers ++ [h.handles]
    else h.inner.subscribers := by
  unfold registerSubscriber; cases h.inner.completion <;> simp

end Register

/-! ### Every reached hub agrees with its trace -/

variable {M}

/-- A step that leaves the hub as it is and adds nothing to the stream. -/
theorem HubOk.quiet (ok : HubOk M rows cols tr h) (hb : l.bytes = [])
    (ht : l.feedTerminal M (terminalOf M rows cols tr) = terminalOf M rows cols tr) :
    HubOk M rows cols (tr ++ [l]) h := by
  have hp := pushed_quiet tr hb
  have htt : terminalOf M rows cols (tr ++ [l]) = terminalOf M rows cols tr := by
    rw [terminalOf_snoc, ht]
  exact ⟨hp ▸ ok.ring, htt ▸ ok.terminal, by rw [snapshotOf, hp, htt]; exact ok.snapshot, ok.nodup,
    ok.known, ok.alive, ok.listed, hp ▸ ok.sealed⟩

/-- A step that only replaces or removes a queue. -/
theorem HubOk.update (ok : HubOk M rows cols tr h) {i : ℕ} {q : SubscriberQueue}
    (hq : h.subscribers i = some q) (new : Option SubscriberQueue) :
    HubOk M rows cols tr { h with subscribers := Function.update h.subscribers i new } := by
  have hlive : ∀ j r, Function.update h.subscribers i new j = some r → ∃ r',
    h.subscribers j = some r' := by
    intro j r hj
    by_cases hji : j = i
    · subst hji; exact ⟨q, hq⟩
    · rw [Function.update_of_ne hji] at hj; exact ⟨r, hj⟩
  refine ⟨ok.ring, ok.terminal, ok.snapshot, ok.nodup, ok.known, fun j r hj => ?_,
    fun hopen j r hj => ?_, ok.sealed⟩
  · obtain ⟨r', hr'⟩ := hlive j r hj
    exact ok.alive j r' hr'
  · obtain ⟨r', hr'⟩ := hlive j r hj
    exact ok.listed hopen j r' hr'

theorem HubOk.register (ok : HubOk M rows cols tr h) (seed : QueueSeed) :
    HubOk M rows cols tr (h.registerSubscriber seed).1 := by
  have hlive : ∀ j r, (h.registerSubscriber seed).1.subscribers j = some r →
      j = h.handles ∨ ∃ r', h.subscribers j = some r' := by
    intro j r hj
    rw [register_subscribers] at hj
    by_cases hji : j = h.handles
    · exact Or.inl hji
    · rw [Function.update_of_ne hji] at hj; exact Or.inr ⟨r, hj⟩
  refine ⟨by simpa using ok.ring, by simpa using ok.terminal, by simpa using ok.snapshot, ?_, ?_,
    fun j r hj => ?_, fun hopen j r hj => ?_, by simpa using ok.sealed⟩
  · rw [register_listed]
    split
    · refine nodup_append.mpr ⟨ok.nodup, by simp, fun a ha b hb => ?_⟩
      have := ok.known a ha
      simp only [mem_singleton] at hb
      omega
    · exact ok.nodup
  · intro i hi
    rw [register_listed] at hi
    rw [register_handles]
    split at hi
    · rcases mem_append.mp hi with hi | hi
      · exact (ok.known i hi).trans (Nat.lt_succ_self _)
      · simp only [mem_singleton] at hi; omega
    · exact (ok.known i hi).trans (Nat.lt_succ_self _)
  · rw [register_handles]
    rcases hlive j r hj with rfl | ⟨r', hr'⟩
    · exact Nat.lt_succ_self _
    · exact (ok.alive j r' hr').trans (Nat.lt_succ_self _)
  · rw [register_completion] at hopen
    rw [register_listed, if_pos hopen]
    rcases hlive j r hj with rfl | ⟨r', hr'⟩
    · simp
    · exact mem_append_left _ (ok.listed hopen j r' hr')

variable {historyLimit subscriberLimit : ℕ}

/-- A hub is made exactly with positive limits. -/
theorem new_ok (hnew : new M historyLimit subscriberLimit rows cols = .ok h) :
    0 < historyLimit ∧ 0 < subscriberLimit ∧
      h = ⟨⟨OutputRing.new historyLimit, M.new rows cols, M.snapshot (M.new rows cols) 0, [],
        none, none⟩, subscriberLimit, fun _ => none, 0⟩ := by
  unfold new at hnew
  by_cases h1 : historyLimit = 0
  · simp [h1, bind, Except.bind, throw, throwThe, MonadExceptOf.throw] at hnew
  by_cases h2 : subscriberLimit = 0
  · simp [h1, h2, bind, Except.bind, throw, throwThe, MonadExceptOf.throw] at hnew
  simp only [h1, h2, if_false, pure, Except.pure, bind, Except.bind, Except.ok.injEq] at hnew
  exact ⟨Nat.pos_of_ne_zero h1, Nat.pos_of_ne_zero h2, hnew.symm⟩

theorem hubOk_new (hnew : new M historyLimit subscriberLimit rows cols = .ok h) :
    HubOk M rows cols [] h := by
  obtain ⟨-, -, rfl⟩ := new_ok hnew
  exact ⟨OutputRing.new_retains _, rfl, rfl, nodup_nil, by simp, by simp, by simp, by simp⟩

theorem hubOk_effect (ok : HubOk M rows cols tr h) (he : Effect M (pushed tr) h l h') :
    HubOk M rows cols (tr ++ [l]) h' := by
  cases he with
  | refused => exact ok.quiet rfl rfl
  | pushedNothing => exact ok.quiet rfl (by simp [Label.feedTerminal])
  | push bytes ring probe hne hopen hring hlimit hstart =>
    have hp : ∀ c, pushed (tr ++ [⟨.push bytes, .pushed (.ok c)⟩]) = pushed tr ++ bytes :=
      fun c => by
      rw [pushed_snoc]; rfl
    have ht : ∀ c, terminalOf M rows cols (tr ++ [⟨.push bytes, .pushed (.ok c)⟩]) =
        (M.takeProbes (M.feed h.inner.terminal bytes)).2 := fun c => by
      rw [terminalOf_snoc, ok.terminal]; simp [Label.feedTerminal, hne]
    refine ⟨by rw [hp]; exact hring, (ht _).symm, by rw [snapshotOf, ht, hp], ok.nodup.filter _,
      fun i hi => ok.known i (mem_of_mem_filter hi), fun i q hq => ?_, fun _ i q hq => ?_,
      by simp [hopen]⟩
    · obtain ⟨q', hq', -⟩ := Option.map_eq_some_iff.mp hq
      exact ok.alive i q' hq'
    · obtain ⟨q', hq', -⟩ := Option.map_eq_some_iff.mp hq
      exact mem_filter.mpr ⟨ok.listed hopen i q' hq', by simp [hq']⟩
  | resize r c =>
    have hp : pushed (tr ++ [⟨.resize r c, .done⟩]) = pushed tr := pushed_quiet tr
    have ht : terminalOf M rows cols (tr ++ [⟨.resize r c, .done⟩]) =
        M.resize h.inner.terminal r c := by rw [terminalOf_snoc, ok.terminal]; rfl
    refine ⟨by rw [hp]; exact ok.ring, ht.symm, ?_, ok.nodup, ok.known, ok.alive, ok.listed,
      by rw [hp]; exact ok.sealed⟩
    rw [snapshotOf, ht, hp, ← ok.ring.next]
    rfl
  | closedBefore => exact ok.quiet rfl rfl
  | close reason c probe hopen hc =>
    have hp : pushed (tr ++ [⟨.close reason, .closed c⟩]) = pushed tr := pushed_quiet tr
    have hs : snapshotOf M rows cols (tr ++ [⟨.close reason, .closed c⟩]) =
      snapshotOf M rows cols tr := by
      rw [snapshotOf, hp, terminalOf_snoc]; rfl
    refine ⟨by rw [hp]; exact ok.ring, by rw [terminalOf_snoc]; exact ok.terminal,
      by rw [hs]; exact ok.snapshot, nodup_nil, by simp, fun i q hq => ?_, by simp, ?_⟩
    · obtain ⟨q', hq', -⟩ := Option.map_eq_some_iff.mp hq
      exact ok.alive i q' hq'
    · intro c' hc'
      simp only [Option.some.injEq] at hc'
      rw [← hc', hc, hp]
  | rejected => exact ok.quiet rfl rfl
  | subscribe _ seed => exact (ok.register seed).quiet rfl rfl
  | subscribeSnapshot => exact (ok.register _).quiet rfl rfl
  | recv i q q' result hq => exact (ok.update hq (some q')).quiet rfl rfl
  | drop i q hq => exact (ok.update hq none).quiet rfl rfl
  | observe => exact ok.quiet rfl rfl
  | answerProbes =>
    have ok' : HubOk M rows cols tr h.answerProbes :=
      ⟨ok.ring, ok.terminal, ok.snapshot, ok.nodup, ok.known, ok.alive, ok.listed, ok.sealed⟩
    exact ok'.quiet rfl rfl

/-- **Every hub of a run agrees with its trace.** -/
theorem hubOk_run (hr : HubRun M historyLimit subscriberLimit rows cols tr h) :
    HubOk M rows cols tr h := by
  obtain ⟨h0, hnew, hrun⟩ := hr
  refine Runs.Run.history (hubOk_new hnew) ?_ hrun
  intro tr t l u _ ok hs
  exact hubOk_effect ok (step_effect M ok hs)

/-- The completion is immutable. -/
theorem Effect.completion {s : List UInt8} (he : Effect M s h l h') {c : OutputCompletion}
    (hc : h.inner.completion = some c) : h'.inner.completion = some c := by
  cases he with
  | push bytes ring probe hne hopen => rw [hopen] at hc; simp at hc
  | close reason c' probe hopen => rw [hopen] at hc; simp at hc
  | subscribe | subscribeSnapshot => simpa using hc
  | refused | pushedNothing | resize | closedBefore | rejected | recv | drop | observe
  | answerProbes => exact hc

/-- A run that continues the run of a hub. -/
theorem HubRun.append {tr' : List Label}
    (hr : HubRun M historyLimit subscriberLimit rows cols tr h) (hr' : Runs.Run (Step M) h tr' h') :
    HubRun M historyLimit subscriberLimit rows cols (tr ++ tr') h' := by
  obtain ⟨h0, hnew, hrun⟩ := hr
  exact ⟨h0, hnew, hrun.append hr'⟩

/-- After the close nothing is added to the stream any more. -/
theorem HubRun.sealed {tr' : List Label} {c : OutputCompletion}
    (hr : HubRun M historyLimit subscriberLimit rows cols tr h) (hc : h.inner.completion = some c)
    (hr' : Runs.Run (Step M) h tr' h') :
    h'.inner.completion = some c ∧ (pushed (tr ++ tr')).length = c.nextOffset := by
  have hc' : h'.inner.completion = some c := by
    induction hr' with
    | refl => exact hc
    | snoc hrun hs ih => exact (step_effect M (hubOk_run (hr.append hrun)) hs).completion ih
  exact ⟨hc', ((hubOk_run (hr.append hr')).sealed c hc').symm⟩

end OutputHub
end Pohunek.Output
