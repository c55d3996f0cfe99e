/-
# What a subscriber receives is the stream

A subscriber's `View` is what it knows: where it started, the offset it has
reached and the repaint it is in the middle of. `Accepts` says which event
may come next and where it leads: data starts at the position and carries
the stream's bytes there, a gap starts at the position and ends at its
watermark, repaint fragments follow a gap and tile one snapshot, and nothing
else comes while a repaint is incomplete. `Follows i tr v` runs these views
along a trace.

The hub keeps three sources for a subscriber, the replay cursor, the repaint
cursor and the queue, and the invariant `StateOk` says where each hands over
to the next: the replay ends where the queue starts, the repaint's watermark
is where the queue starts. A push extends the queue at the stream's end or
drops it for a repaint at the stream's end (`stateOk_pushOutput`), a poll
takes an accepted event from the first source (`nextEvent_ok`).
-/
import Pohunek.Output.Steps
import Pohunek.Lib.Cover

namespace Pohunek.Output

open Cover OutputHub SubscriberQueue SubscriberState OutputEvent List Label Function

variable {τ : Type} (M : TerminalModel τ)

/-! ### What a subscriber may be given -/

/-- What a subscriber knows. `repaint` is the snapshot it is being painted
with and the bytes of it that came. -/
structure View where
  origin : ℕ
  position : ℕ
  repaint : Option (TerminalSnapshot × ℕ)

/-- The event `e` may come to a subscriber with view `v`, when `s` was
pushed, and leads to `v'`. `painted` are the snapshots there are. -/
inductive Accepts (s : List UInt8) (painted : TerminalSnapshot → Prop) :
    View → OutputEvent → View → Prop
  | replay {a p : ℕ} (c : OutputChunk)
      (hp : c.offset = p) (hs : (Piece.data c.offset c.bytes).Of s) :
      Accepts s painted ⟨a, p, none⟩ (.replay c) ⟨a, p + c.bytes.length, none⟩
  | output {a p : ℕ} (c : OutputChunk)
      (hp : c.offset = p) (hs : (Piece.data c.offset c.bytes).Of s) :
      Accepts s painted ⟨a, p, none⟩ (.output c) ⟨a, p + c.bytes.length, none⟩
  | gap {a p : ℕ} {r : Option (TerminalSnapshot × ℕ)} (T : TerminalSnapshot) (hT : painted T)
      (hlt : p < T.watermark) (hle : T.watermark ≤ s.length) :
      Accepts s painted ⟨a, p, r⟩ (.gap ⟨p, T.watermark⟩ T.watermark) ⟨a, T.watermark, some (T, 0)⟩
  | fragment {a p n : ℕ} {T : TerminalSnapshot} (bytes : List UInt8) (hne : bytes ≠ [])
      (hb : (Piece.data n bytes).Of T.ansi) :
      Accepts s painted ⟨a, p, some (T, n)⟩ (.terminalSnapshot ⟨T, n, T.ansi.length, bytes⟩)
        ⟨a, p, if n + bytes.length = T.ansi.length then none else some (T, n + bytes.length)⟩
  | exit {a p : ℕ} (hp : p = s.length) : Accepts s painted ⟨a, p, none⟩ (.exit p) ⟨a, p, none⟩

/-- The snapshots the terminal had so far. -/
def Painted (rows cols : UInt16) (tr : List Label) (T : TerminalSnapshot) : Prop :=
  ∃ pre, pre <+: tr ∧ T = snapshotOf M rows cols pre

/-- The views of subscriber `i` along a trace: it starts at the requested
offset, or with a repaint at the snapshot's watermark, and every event it
receives is accepted. -/
inductive Follows (rows cols : UInt16) (i : ℕ) : List Label → View → Prop
  | subscribed {tr : List Label} (afterOffset : Option ℕ) :
      Follows rows cols i (tr ++ [⟨.subscribe afterOffset, .subscribed (.ok i)⟩])
        ⟨afterOffset.getD 0, afterOffset.getD 0, none⟩
  | attached {tr : List Label} :
      Follows rows cols i (tr ++ [⟨.subscribeTerminalSnapshot, .subscribed (.ok i)⟩])
        ⟨(snapshotOf M rows cols tr).watermark, (snapshotOf M rows cols tr).watermark,
          some (snapshotOf M rows cols tr, 0)⟩
  | other {tr : List Label} {v : View} {l : Label} (h : Follows rows cols i tr v)
      (hl : ∀ e, l ≠ ⟨.recv i, .received (.event e)⟩) : Follows rows cols i (tr ++ [l]) v
  | event {tr : List Label} {v v' : View} {e : OutputEvent} (h : Follows rows cols i tr v)
      (he : Accepts (pushed tr) (Painted M rows cols tr) v e v') :
      Follows rows cols i (tr ++ [⟨.recv i, .received (.event e)⟩]) v'

/-- The event a step gives to subscriber `i`. -/
def Label.eventTo (i : ℕ) : Label → Option OutputEvent
  | ⟨.recv j, .received (.event e)⟩ => if j = i then some e else none
  | _ => none

/-- The events subscriber `i` received, oldest first. -/
def received (i : ℕ) (tr : List Label) : List OutputEvent := tr.filterMap (Label.eventTo i)

/-- The stretch of the stream an event stands for. -/
def OutputEvent.piece : OutputEvent → Option (Piece UInt8)
  | .replay c => some (.data c.offset c.bytes)
  | .output c => some (.data c.offset c.bytes)
  | .gap missing _ => some (.gap missing.start missing.stop)
  | .terminalSnapshot _ => none
  | .exit _ => none

theorem received_snoc (i : ℕ) (tr : List Label) (l : Label) :
    received i (tr ++ [l]) = received i tr ++ (l.eventTo i).toList := by
  simp only [received, filterMap_append, filterMap_cons, filterMap_nil]
  cases l.eventTo i <;> rfl

variable {s : List UInt8} {painted : TerminalSnapshot → Prop} {v : View}

/-- An accepted event covers the stream from the old position to the new. -/
theorem Accepts.covers {v' : View} {e : OutputEvent} (h : Accepts s painted v e v') :
    v'.origin = v.origin ∧ Covers s v.position e.piece.toList v'.position := by
  cases h with
  | replay c hp hs => exact ⟨rfl, hp, hs, by simp [Covers, Piece.stop, hp]⟩
  | output c hp hs => exact ⟨rfl, hp, hs, by simp [Covers, Piece.stop, hp]⟩
  | gap T _ hlt hle => exact ⟨rfl, rfl, ⟨hlt, hle⟩, rfl⟩
  | fragment => exact ⟨rfl, rfl⟩
  | exit => exact ⟨rfl, rfl⟩

/-! ### Where the three sources hand over -/

/-- The queue from offset `a` on: output to the stream's end, and the exit
last, on a closed hub only. -/
def Queued (s : List UInt8) (closed : Bool) : ℕ → List OutputEvent → Prop
  | a, [] => a = s.length
  | a, .output c :: es =>
    c.offset = a ∧ (Piece.data c.offset c.bytes).Of s ∧ Queued s closed (a + c.bytes.length) es
  | a, .exit n :: es => closed = true ∧ es = [] ∧ a = s.length ∧ n = s.length
  | _, _ => False

variable {closed : Bool}

theorem Queued.le : ∀ {a : ℕ} {es : List OutputEvent},
    Queued s closed a es → a ≤ s.length
  | _, [], h => Nat.le_of_eq h
  | _, .output _ :: _, ⟨_, _, h⟩ => (Nat.le_add_right _ _).trans h.le
  | _, .exit _ :: _, ⟨_, _, h, _⟩ => Nat.le_of_eq h

/-- A push at the end of the queue. -/
theorem Queued.push (bs : List UInt8) : ∀ {a : ℕ} {es : List OutputEvent},
    Queued s false a es → Queued (s ++ bs) false a (es ++ [.output ⟨s.length, bs⟩])
  | a, [], h => by
    cases h
    refine ⟨rfl, ⟨?_, by simp⟩, by simp [Queued]⟩
    simp [List.extract]
  | _, .output _ :: _, ⟨h1, h2, h3⟩ => ⟨h1, h2.grow bs, h3.push bs⟩
  | _, .exit _ :: _, ⟨h, _⟩ => by simp at h

/-- The exit at the end of the queue. -/
theorem Queued.close : ∀ {a : ℕ} {es : List OutputEvent},
    Queued s false a es → Queued s true a (es ++ [.exit s.length])
  | _, [], h => ⟨rfl, rfl, h, rfl⟩
  | _, .output _ :: _, ⟨h1, h2, h3⟩ => ⟨h1, h2, h3.close⟩
  | _, .exit _ :: _, ⟨h, _⟩ => by simp at h

/-- The cursors and the queue of a subscriber whose view is `v`: one source
is next, and each ends where the one after it starts. -/
inductive Sources (s : List UInt8) (painted : TerminalSnapshot → Prop) (closed : Bool) (v : View)
    (st : SubscriberState) : Prop
  | replay (c : ReplayCursor) (hr : st.replay = some c) (hc : st.snapshot = none)
      (hv : v.repaint = none) (hnext : c.next = v.position) (hle : c.next ≤ c.stop)
      (hempty : c.emptyPending = decide (c.stop ≤ c.next)) (hq : Queued s closed c.stop st.events)
  | gap (T : TerminalSnapshot) (hr : st.replay = none)
      (hc : st.snapshot = some (SnapshotCursor.new ⟨v.position, T.watermark⟩ T)) (hT : painted T)
      (hlt : v.position < T.watermark) (hq : Queued s closed T.watermark st.events)
  | repaint (T : TerminalSnapshot) (n : ℕ) (missing : OffsetRange) (hr : st.replay = none)
      (hc : st.snapshot = some ⟨missing, T, false, n⟩) (hT : painted T)
      (hv : v.repaint = some (T, n)) (hn : n < T.ansi.length) (hp : v.position = T.watermark)
      (hq : Queued s closed T.watermark st.events)
  | live (hr : st.replay = none) (hc : st.snapshot = none) (hv : v.repaint = none)
      (hq : Queued s closed v.position st.events)

/-- The invariant of one subscriber. -/
structure StateOk (s : List UInt8) (painted : TerminalSnapshot → Prop) (closed : Bool) (v : View)
    (st : SubscriberState) : Prop where
  expected : st.expectedOffset = v.position
  sources : Sources s painted closed v st

variable {st : SubscriberState}

theorem StateOk.queued (h : StateOk s painted closed v st) :
    ∃ a, v.position ≤ a ∧ Queued s closed a st.events := by
  cases h.sources with
  | replay c _ _ _ hnext hle _ hq => exact ⟨_, hnext ▸ hle, hq⟩
  | gap T _ _ _ hlt hq => exact ⟨_, hlt.le, hq⟩
  | repaint T n _ _ _ _ _ _ hp hq => exact ⟨_, hp.le, hq⟩
  | live _ _ _ hq => exact ⟨_, le_rfl, hq⟩

theorem StateOk.bound (h : StateOk s painted closed v st) : v.position ≤ s.length := by
  obtain ⟨a, ha, hq⟩ := h.queued
  exact ha.trans hq.le

variable {painted' : TerminalSnapshot → Prop}

/-- The cursors are kept and the queue still starts where they end. -/
theorem StateOk.requeue {s' : List UInt8} {closed' : Bool}
    {st st' : SubscriberState} (h : StateOk s painted closed v st)
    (hp : ∀ T, painted T → painted' T)
    (hq : ∀ a, Queued s closed a st.events → Queued s' closed' a st'.events)
    (he : st'.expectedOffset = st.expectedOffset := by rfl) (hr : st'.replay = st.replay := by rfl)
    (hc : st'.snapshot = st.snapshot := by rfl) : StateOk s' painted' closed' v st' := by
  refine ⟨he.trans h.expected, ?_⟩
  cases h.sources with
  | replay c h1 h2 h3 h4 h5 h6 h7 =>
    exact .replay c (hr.trans h1) (hc.trans h2) h3 h4 h5 h6 (hq _ h7)
  | gap T h1 h2 h3 h4 h5 => exact .gap T (hr.trans h1) (hc.trans h2) (hp T h3) h4 (hq _ h5)
  | repaint T n m h1 h2 h3 h4 h5 h6 h7 =>
    exact .repaint T n m (hr.trans h1) (hc.trans h2) (hp T h3) h4 h5 h6 (hq _ h7)
  | live h1 h2 h3 h4 => exact .live (hr.trans h1) (hc.trans h2) h3 (hq _ h4)

theorem StateOk.mono (hp : ∀ T, painted T → painted' T)
    (h : StateOk s painted closed v st) : StateOk s painted' closed v st :=
  h.requeue hp fun _ hq => hq

/-! ### The producer -/

section Producer

variable {s : List UInt8} {painted : TerminalSnapshot → Prop} {v : View} {q : SubscriberQueue}

/-- A push goes to the end of the queue, or drops all for a repaint at the
new end of the stream. -/
theorem stateOk_pushOutput (h : StateOk s painted false v q.state) (bs : List UInt8) (hne : bs ≠ [])
    {T : TerminalSnapshot} (hT : painted T) (hw : T.watermark = (s ++ bs).length) :
    StateOk (s ++ bs) painted false v (q.pushOutput ⟨s.length, bs⟩ T).state := by
  have hpos : 0 < bs.length := length_pos_of_ne_nil hne
  have hb := h.bound
  unfold pushOutput
  simp only
  split
  · refine ⟨h.expected, .gap T rfl (by rw [h.expected]) hT ?_ ?_⟩
    · rw [hw, length_append]; omega
    · exact hw
  · exact h.requeue (fun _ hT => hT) fun _ hq => hq.push bs

theorem stateOk_pushTerminal (h : StateOk s painted false v q.state) :
    StateOk s painted true v (q.pushTerminal s.length).state :=
  h.requeue (fun _ hT => hT) fun _ hq => hq.close

end Producer

/-! ### The consumer -/

section Consumer

variable {s : List UInt8} {painted : TerminalSnapshot → Prop} {closed : Bool} {v : View}
  {st : SubscriberState}

/-- A poll of a subscriber whose view is `v`: an event it accepts and the
invariant for the new view, or nothing and an empty queue. -/
def Polled (s : List UInt8) (painted : TerminalSnapshot → Prop) (closed : Bool) (v : View) :
    SubscriberState × Option OutputEvent → Prop
  | (st', some e) => ∃ v', Accepts s painted v e v' ∧ StateOk s painted closed v' st'
  | (st', none) => StateOk s painted closed v st' ∧ st'.replay = none ∧ st'.snapshot = none ∧
      st'.events = []

theorem endOffset_eq {c : OutputChunk} (hfits : s.length ≤ u64Max)
    (hs : (Piece.data c.offset c.bytes).Of s) : c.endOffset = c.offset + c.bytes.length :=
  satAdd_eq (hs.2.trans hfits)

theorem nextQueued_ok (hfits : s.length ≤ u64Max) (hexp : st.expectedOffset = v.position)
    (hr : st.replay = none) (hc : st.snapshot = none) (hv : v.repaint = none)
    (hq : Queued s closed v.position st.events) : Polled s painted closed v st.nextQueued := by
  obtain ⟨a, p, r⟩ := v
  simp only at hv hexp hq
  subst hv
  unfold nextQueued
  cases hes : st.events with
  | nil => exact ⟨⟨hexp, .live hr hc rfl hq⟩, hr, hc, hes⟩
  | cons e es =>
    rw [hes] at hq
    cases e with
    | output c =>
      obtain ⟨h1, h2, h3⟩ := hq
      refine ⟨_, .output c h1 h2, ?_, .live hr hc rfl h3⟩
      simp [nextOffset, endOffset_eq hfits h2, h1]
    | exit n =>
      obtain ⟨_, h2, h3, h4⟩ := hq
      have hn : n = p := by rw [h4, h3]
      subst hn
      exact ⟨_, .exit h3, rfl, .live hr hc rfl (by rw [h2]; exact h3)⟩
    | replay | gap | terminalSnapshot => exact hq.elim

/-- A gap that is pending comes next, with the repaint after it. -/
theorem nextRepaint_gap {T : TerminalSnapshot} (hT : painted T) (hansi : T.ansi ≠ [])
    (hr : st.replay = none)
    (hc : st.snapshot = some (SnapshotCursor.new ⟨v.position, T.watermark⟩ T))
    (hlt : v.position < T.watermark) (hq : Queued s closed T.watermark st.events) (eventLimit : ℕ) :
    Polled s painted closed v (st.nextRepaint eventLimit) := by
  obtain ⟨a, p, r⟩ := v
  unfold nextRepaint
  rw [hc]
  exact ⟨_, .gap T hT hlt hq.le, rfl,
    .repaint T 0 _ hr rfl hT rfl (length_pos_of_ne_nil hansi) rfl hq⟩

/-- The next fragment of a repaint. -/
theorem nextRepaint_fragment {T : TerminalSnapshot} {n : ℕ} {missing : OffsetRange} (hT : painted T)
    (hexp : st.expectedOffset = v.position) (hr : st.replay = none)
    (hc : st.snapshot = some ⟨missing, T, false, n⟩) (hv : v.repaint = some (T, n))
    (hn : n < T.ansi.length) (hp : v.position = T.watermark)
    (hq : Queued s closed T.watermark st.events) {eventLimit : ℕ} (hlimit : 0 < eventLimit) :
    Polled s painted closed v (st.nextRepaint eventLimit) := by
  obtain ⟨a, p, r⟩ := v
  subst hv hp
  unfold nextRepaint
  rw [hc]
  simp only [Bool.false_eq_true, if_false, if_pos hn]
  have hlen : (T.ansi.extract n (min (n + eventLimit) T.ansi.length)).length =
      min (n + eventLimit) T.ansi.length - n := by
    simp only [List.extract, length_take, length_drop]; omega
  have hend : n + (T.ansi.extract n (min (n + eventLimit) T.ansi.length)).length =
      min (n + eventLimit) T.ansi.length := by omega
  have hof : (Piece.data n (T.ansi.extract n (min (n + eventLimit) T.ansi.length))).Of T.ansi :=
    ⟨by rw [hend], by omega⟩
  have hne : T.ansi.extract n (min (n + eventLimit) T.ansi.length) ≠ [] := by
    apply ne_nil_of_length_pos
    omega
  refine ⟨_, .fragment _ hne hof, hexp, ?_⟩
  rw [hend]
  by_cases hdone : min (n + eventLimit) T.ansi.length = T.ansi.length
  · simp only [if_pos hdone]
    exact .live hr rfl rfl hq
  · simp only [if_neg hdone]
    exact .repaint T _ missing hr rfl hT rfl (by omega) rfl hq

theorem poll_eventLimit (q : SubscriberQueue) (hub : HubState τ) :
    (q.poll hub).1.eventLimit = q.eventLimit := by
  rw [poll_queue]

theorem recv_eventLimit (q : SubscriberQueue) (hub : HubState τ) :
    (q.recv hub).1.eventLimit = q.eventLimit := by
  have hl := poll_eventLimit q hub
  rcases recv_cases q hub with hr | ⟨-, hr⟩ <;> rw [hr]
  · exact hl
  · rw [poll_eventLimit]
    exact hl

variable {hub : HubState τ} (hring : hub.ring.Retains s) (hsnap : painted hub.terminalSnapshot)
  (hw : hub.terminalSnapshot.watermark = s.length) (hansi : ∀ T, painted T → T.ansi ≠ [])
include hring hsnap hw hansi

/-- **A poll gives an accepted event.** The ring and the snapshot are the
hub's at the stream `s`. -/
theorem nextEvent_ok {eventLimit : ℕ} (hlimit : 0 < eventLimit)
    (h : StateOk s painted closed v st) :
    Polled s painted closed v (st.nextEvent hub eventLimit) := by
  have hfits := hring.fits
  have hexp := h.expected
  unfold nextEvent
  cases h.sources with
  | replay c hr hc hv hnext hle hempty hq =>
    rw [hr]
    simp only
    obtain ⟨a, p, r⟩ := v
    subst hv hnext
    split
    · -- an empty replay is announced once and hands over to the queue
      rename_i he
      have hstop : c.stop = c.next := by
        rw [hempty, decide_eq_true_eq] at he
        omega
      refine ⟨⟨a, c.next, none⟩, .replay ⟨c.next, []⟩ rfl ⟨by simp, ?_⟩, hexp, .live rfl hc rfl ?_⟩
      · exact (hstop ▸ hq.le : c.next ≤ s.length)
      · exact hstop ▸ hq
    · rename_i he
      have hlt : c.next < c.stop := by
        rw [hempty, decide_eq_true_eq] at he
        omega
      rcases OutputRing.chunk_spec hring eventLimit hlt hq.le with ⟨hgone, hch⟩ | ⟨_, hch⟩
      · -- the cursor was evicted: everything is dropped for a repaint at the stream's end
        rw [hch]
        have hb : c.next < s.length := lt_of_lt_of_le hlt hq.le
        refine nextRepaint_gap (v := ⟨a, c.next, none⟩) hsnap
          (hansi _ hsnap) rfl ?_ ?_ ?_ eventLimit
        · simp only [hexp, hw, hring.next]
        · simpa [hw] using hb
        · exact hw
      · rw [hch]
        set stop := min c.stop (c.next + eventLimit) with hstop
        have hs := hq.le
        have hlen : (s.extract c.next stop).length = stop - c.next := by
          simp only [List.extract, length_take, length_drop]; omega
        have hof : (Piece.data c.next (s.extract c.next stop)).Of s := by
          refine ⟨?_, by omega⟩
          rw [hlen, show c.next + (stop - c.next) = stop by omega]
        have hend : (⟨c.next, s.extract c.next stop⟩ : OutputChunk).endOffset = stop := by
          rw [endOffset_eq hfits hof]
          simp only
          omega
        refine ⟨_, .replay _ rfl hof, ?_, ?_⟩
        · simp only [hend]; omega
        · rw [hend]
          have hpos : c.next + (s.extract c.next stop).length = stop := by omega
          simp only [hpos]
          by_cases hdone : stop = c.stop
          · rw [if_pos hdone]
            exact .live rfl hc rfl (hdone ▸ hq)
          · rw [if_neg hdone]
            refine .replay _ rfl hc rfl rfl (by simp only; omega) ?_ hq
            have : ¬ c.stop ≤ stop := by omega
            simp only [this, decide_false]
            simpa using he
  | gap T hr hc hT hlt hq =>
    rw [hr]
    exact nextRepaint_gap hT (hansi T hT) hr hc hlt hq eventLimit
  | repaint T n m hr hc hT hv hn hp hq =>
    rw [hr]
    exact nextRepaint_fragment hT hexp hr hc hv hn hp hq hlimit
  | live hr hc hv hq =>
    rw [hr]
    simp only [nextRepaint, hc]
    exact nextQueued_ok hfits hexp hr hc hv hq

/-- What a poll of `recv` leaves behind. -/
def Served (s : List UInt8) (painted : TerminalSnapshot → Prop) (closed : Bool) (v : View)
    (q' : SubscriberQueue) : RecvResult → Prop
  | .event e => ∃ v', Accepts s painted v e v' ∧ StateOk s painted closed v' q'.state
  | _ => StateOk s painted closed v q'.state

theorem poll_ok {q : SubscriberQueue} (hlimit : 0 < q.eventLimit)
    (h : StateOk s painted closed v q.state) :
    Served s painted closed v (q.poll hub).1 (q.poll hub).2 := by
  have hpolled := nextEvent_ok hring hsnap hw hansi hlimit h
  unfold poll
  rcases hne : q.state.nextEvent hub q.eventLimit with ⟨st', _ | e⟩
  · rw [hne] at hpolled
    simp only
    split <;> exact hpolled.1
  · rw [hne] at hpolled
    exact hpolled

/-- A pass that finds nothing changes no source, so the pass after it serves
the same view. -/
theorem recv_ok {q : SubscriberQueue} (hlimit : 0 < q.eventLimit)
    (h : StateOk s painted closed v q.state) :
    Served s painted closed v (q.recv hub).1 (q.recv hub).2 := by
  have h1 := poll_ok hring hsnap hw hansi hlimit h
  rcases recv_cases q hub with hr | ⟨hp, hr⟩ <;> rw [hr]
  · exact h1
  · rw [hp] at h1
    exact poll_ok (q := { (q.poll hub).1 with permit := false }) hring hsnap hw hansi
      (hlimit.trans_eq (poll_eventLimit q hub).symm) h1

end Consumer

/-! ### Every run -/

section EveryRun

variable {M} {rows cols : UInt16} {tr : List Label} {h h' : OutputHub τ} {i : ℕ}

variable {T : TerminalSnapshot}

theorem Painted.snoc (l : Label) (hT : Painted M rows cols tr T) :
    Painted M rows cols (tr ++ [l]) T := by
  obtain ⟨pre, hp, hT⟩ := hT
  exact ⟨pre, hp.trans (prefix_append _ _), hT⟩

theorem Painted.ansi_ne (hT : Painted M rows cols tr T) : T.ansi ≠ [] := by
  obtain ⟨pre, _, rfl⟩ := hT
  exact M.snapshot_ansi_ne _ _

/-- The snapshot a hub holds is its terminal's now, at the stream's end. -/
theorem painted_current (ok : HubOk M rows cols tr h) :
    Painted M rows cols tr h.inner.terminalSnapshot :=
  ⟨tr, prefix_refl _, ok.snapshot⟩

theorem watermark_current (ok : HubOk M rows cols tr h) :
    h.inner.terminalSnapshot.watermark = (pushed tr).length := by
  rw [ok.snapshot]; rfl

variable {l : Label}

theorem eventTo_eq_some {e : OutputEvent} :
    l.eventTo i = some e ↔ l = ⟨.recv i, .received (.event e)⟩ := by
  constructor
  · intro h
    unfold eventTo at h
    split at h
    · split at h
      · rename_i hj
        cases h
        rw [hj]
      · simp at h
    · simp at h
  · rintro rfl
    simp [eventTo]

/-- What is known of handle `i` after a trace: its view, what it received,
and the invariant of its queue while it is alive. -/
def Tracked (M : TerminalModel τ) (rows cols : UInt16) (tr : List Label) (h : OutputHub τ) (i : ℕ) :
    Prop :=
  ∃ v, Follows M rows cols i tr v ∧
    Covers (pushed tr) v.origin ((received i tr).filterMap piece) v.position ∧
    ∀ q, h.subscribers i = some q → 0 < q.eventLimit ∧
      StateOk (pushed tr) (Painted M rows cols tr) h.inner.completion.isSome v q.state

/-- A step that gives `i` no event keeps its view; its queue has to be
carried over. -/
theorem Tracked.keep (ht : Tracked M rows cols tr h i) (hl : l.eventTo i = none)
      (hq : ∀ v q', h'.subscribers i = some q' → (∀ q, h.subscribers i = some q → 0 < q.eventLimit ∧
        StateOk (pushed tr) (Painted M rows cols tr) h.inner.completion.isSome v q.state) →
      0 < q'.eventLimit ∧ StateOk (pushed (tr ++ [l])) (Painted M rows cols (tr ++ [l]))
        h'.inner.completion.isSome v q'.state) :
    Tracked M rows cols (tr ++ [l]) h' i := by
  obtain ⟨v, hf, hc, hs⟩ := ht
  refine ⟨v, .other hf (fun e he => ?_), ?_, fun q' hq' => hq v q' hq' hs⟩
  · rw [eventTo_eq_some.mpr he] at hl
    simp at hl
  · rw [received_snoc, hl, pushed_snoc]
    simpa using hc.grow l.bytes

/-- A step that changes neither the stream nor the queue of `i`. -/
theorem Tracked.quiet (ht : Tracked M rows cols tr h i) (hl : l.eventTo i = none)
    (hb : l.bytes = []) (hq : h'.subscribers i = h.subscribers i)
    (hc : h'.inner.completion = h.inner.completion) : Tracked M rows cols (tr ++ [l]) h' i := by
  refine ht.keep hl fun v q' hq' hs => ?_
  obtain ⟨h1, h2⟩ := hs q' (hq ▸ hq')
  rw [pushed_quiet tr hb, hc]
  exact ⟨h1, h2.mono fun T hT => hT.snoc l⟩

/-- A poll of `i` gives it an event it accepts, or none. -/
theorem Tracked.recv {q q' : SubscriberQueue} {result : RecvResult}
    (ht : Tracked M rows cols tr h i) (ok : HubOk M rows cols tr h) (hq : h.subscribers i = some q)
    (hrecv : q.recv h.inner = (q', result)) :
    Tracked M rows cols (tr ++ [⟨.recv i, .received result⟩])
      { h with subscribers := update h.subscribers i (some q') } i := by
  obtain ⟨v, hf, hc, hs⟩ := ht
  obtain ⟨hl, hst⟩ := hs q hq
  have hw := watermark_current ok
  have hcur := painted_current ok
  have hserved := recv_ok ok.ring hcur hw (fun T hT => hT.ansi_ne) hl hst
  have hlimit := recv_eventLimit q h.inner
  rw [hrecv] at hserved hlimit
  have hp : pushed (tr ++ [⟨.recv i, .received result⟩]) = pushed tr := pushed_quiet tr
  -- whatever the view, the queue written back is `q'`
  have hback : ∀ w,
    StateOk (pushed tr) (Painted M rows cols tr) h.inner.completion.isSome w q'.state →
      ∀ q'', update h.subscribers i (some q') i = some q'' → 0 < q''.eventLimit ∧
        StateOk (pushed (tr ++ [⟨.recv i, .received result⟩]))
          (Painted M rows cols (tr ++ [⟨.recv i, .received result⟩])) h.inner.completion.isSome w
          q''.state := by
    intro w hw' q'' hq''
    rw [update_self] at hq''
    cases hq''
    refine ⟨hlimit ▸ hl, ?_⟩
    rw [hp]
    exact hw'.mono fun T hT => hT.snoc _
  cases result with
  | event e =>
    obtain ⟨v', ha, hst'⟩ := hserved
    obtain ⟨ho, hcov⟩ := ha.covers
    refine ⟨v', .event hf ha, ?_, hback v' hst'⟩
    rw [received_snoc, hp, ho, filterMap_append]
    simp only [eventTo, if_true, Option.toList_some]
    refine hc.append ?_
    cases hpc : e.piece <;> simpa [hpc] using hcov
  | ended | pending =>
    refine ⟨v, .other hf (by simp), ?_, hback v hserved⟩
    rw [received_snoc, hp]
    simpa [eventTo] using hc

variable {painted : TerminalSnapshot → Prop}

/-- The seed of a subscription agrees with the subscriber's first view. -/
theorem stateOk_seed {s : List UInt8}
    (hT : painted T) (hw : T.watermark = s.length) (limit start a : ℕ) (ha : a ≤ s.length)
    (hstart : start ≤ s.length) :
    StateOk s painted false ⟨a, a, none⟩
      (new limit (if a < start then .gap ⟨a, s.length⟩ T else .replay ⟨a, s.length⟩)).state := by
  split
  · refine ⟨rfl, .gap T rfl ?_ hT ?_ hw⟩
    · simp [SubscriberQueue.new, hw]
    · simp only; omega
  · exact ⟨rfl, .replay _ rfl rfl rfl rfl ha rfl rfl⟩

theorem stateOk_attach {s : List UInt8}
    (hT : painted T) (hw : T.watermark = s.length) (hansi : T.ansi ≠ []) (limit : ℕ) :
    StateOk s painted false ⟨T.watermark, T.watermark, some (T, 0)⟩
      (new limit (.snapshot T)).state :=
  ⟨rfl, .repaint T 0 _ rfl rfl hT rfl (length_pos_of_ne_nil hansi) rfl hw⟩

/-- On a closed hub the exit is queued behind the seed. -/
theorem stateOk_seeded (ok : HubOk M rows cols tr h) {v : View} {seed : QueueSeed}
    (hs : StateOk (pushed tr) painted false v (new h.subscriberLimit seed).state) :
    StateOk (pushed tr) painted h.inner.completion.isSome v (h.seeded seed).state := by
  unfold seeded
  cases hc : h.inner.completion with
  | none => exact hs
  | some c =>
    simp only [Option.isSome_some]
    rw [ok.sealed c hc]
    exact stateOk_pushTerminal hs

theorem seeded_eventLimit (h : OutputHub τ) (seed : QueueSeed) :
    (h.seeded seed).eventLimit = min Stream.maxDataPayloadBytes h.subscriberLimit := by
  unfold seeded
  cases h.inner.completion <;> rfl

/-- The invariant of all subscribers of a hub. -/
structure SubscribersOk (M : TerminalModel τ) (rows cols : UInt16) (tr : List Label)
    (h : OutputHub τ) : Prop where
  limit : 0 < h.subscriberLimit
  unheard : ∀ i, h.handles ≤ i → received i tr = []
  named : ∀ c i, ⟨c, .subscribed (.ok i)⟩ ∈ tr → i < h.handles
  tracked : ∀ i < h.handles, Tracked M rows cols tr h i

/-- A step that registers nobody. -/
theorem SubscribersOk.keep (hok : SubscribersOk M rows cols tr h)
    (ht : ∀ i < h.handles, Tracked M rows cols (tr ++ [l]) h' i)
    (hl : ∀ i, h.handles ≤ i → l.eventTo i = none := by exact fun _ _ => rfl)
    (hn : ∀ i, l.answer ≠ .subscribed (.ok i) := by simp) (hh : h'.handles = h.handles := by rfl)
    (hlimit : h'.subscriberLimit = h.subscriberLimit := by rfl) :
    SubscribersOk M rows cols (tr ++ [l]) h' := by
  refine ⟨hlimit ▸ hok.limit, fun i hi => ?_, fun c i hm => ?_, fun i hi => ht i (hh ▸ hi)⟩
  · rw [hh] at hi
    rw [received_snoc, hok.unheard i hi, hl i hi]
    rfl
  · rw [hh]
    rcases mem_append.mp hm with hm | hm
    · exact hok.named c i hm
    · exact absurd (congrArg Runs.Label.answer (mem_singleton.mp hm)).symm (hn i)

/-- A step that registers the next handle, with its first view. -/
theorem SubscribersOk.register (ok : HubOk M rows cols tr h)
    (hok : SubscribersOk M rows cols tr h) (seed : QueueSeed) (call : Call) (v : View)
    (hb : bytes ⟨call, .subscribed (.ok h.handles)⟩ = [])
    (hv : v.position = v.origin)
    (hf : Follows M rows cols h.handles (tr ++ [⟨call, .subscribed (.ok h.handles)⟩]) v)
    (hs : StateOk (pushed tr) (Painted M rows cols tr) false v
      (new h.subscriberLimit seed).state) :
    SubscribersOk M rows cols (tr ++ [⟨call, .subscribed (.ok h.handles)⟩])
      (h.registerSubscriber seed).1 := by
  have hp := pushed_quiet tr hb
  have hnone : ∀ i, eventTo i ⟨call, .subscribed (.ok h.handles)⟩ = none := fun i => by
    cases hcase : eventTo i ⟨call, .subscribed (.ok h.handles)⟩ with
    | none => rfl
    | some e => have := eventTo_eq_some.mp hcase; simp at this
  refine ⟨by simpa using hok.limit, fun i hi => ?_, fun c i hm => ?_, fun i hi => ?_⟩
  · rw [register_handles] at hi
    rw [received_snoc, hnone, hok.unheard i (by omega)]
    rfl
  · rw [register_handles]
    rcases mem_append.mp hm with hm | hm
    · exact (hok.named c i hm).trans (Nat.lt_succ_self _)
    · simp only [mem_singleton, Runs.Label.mk.injEq, Answer.subscribed.injEq, Except.ok.injEq] at hm
      omega
  · rw [register_handles] at hi
    by_cases hih : i = h.handles
    · subst hih
      refine ⟨v, hf, ?_, fun q hq => ?_⟩
      · rw [received_snoc, hnone, hok.unheard _ le_rfl]
        exact hv.symm
      · rw [register_subscribers, update_self] at hq
        cases hq
        refine ⟨?_, ?_⟩
        · rw [seeded_eventLimit]
          exact lt_min (by decide) hok.limit
        · rw [hp, register_completion]
          exact (stateOk_seeded ok hs).mono fun T hT => hT.snoc _
    · refine (hok.tracked i (by omega)).quiet (hnone i) hb ?_ (by simp)
      rw [register_subscribers, update_of_ne hih]

variable {historyLimit subscriberLimit : ℕ}

theorem subscribersOk_new
    (hnew : new M historyLimit subscriberLimit rows cols = .ok h) :
    SubscribersOk M rows cols [] h := by
  obtain ⟨-, hpos, rfl⟩ := new_ok hnew
  exact ⟨hpos, fun _ _ => rfl, by simp, by simp⟩

/-- **A step keeps the invariant of every subscriber.** -/
theorem subscribersOk_effect (ok : HubOk M rows cols tr h) (hok : SubscribersOk M rows cols tr h)
    (he : Effect M (pushed tr) h l h') : SubscribersOk M rows cols (tr ++ [l]) h' := by
  have hok' := hubOk_effect ok he
  have hw := watermark_current ok
  have hcur := painted_current ok
  cases he with
  | refused | pushedNothing | closedBefore | rejected | observe | resize | answerProbes =>
    exact hok.keep fun i hi => (hok.tracked i hi).quiet rfl rfl rfl rfl
  | push bytes ring probe hne hopen =>
    refine hok.keep fun i hi => (hok.tracked i hi).keep rfl fun v q' hq' hs => ?_
    obtain ⟨q, hq, rfl⟩ := Option.map_eq_some_iff.mp hq'
    obtain ⟨hl, hst⟩ := hs q hq
    rw [hopen] at hst ⊢
    rw [pushed_snoc]
    exact ⟨hl, stateOk_pushOutput (hst.mono fun T hT => hT.snoc _) bytes hne
      (painted_current hok') rfl⟩
  | close reason c probe hopen =>
    refine hok.keep fun i hi => (hok.tracked i hi).keep rfl fun v q' hq' hs => ?_
    obtain ⟨q, hq, rfl⟩ := Option.map_eq_some_iff.mp hq'
    obtain ⟨hl, hst⟩ := hs q hq
    rw [hopen] at hst
    rw [pushed_quiet tr]
    exact ⟨hl, stateOk_pushTerminal (hst.mono fun T hT => hT.snoc _)⟩
  | subscribe afterOffset seed hle hseed =>
    refine hok.register ok seed _ _ rfl rfl (.subscribed afterOffset) ?_
    rw [hseed]
    exact stateOk_seed hcur hw _ _ _ hle ok.ring.start
  | subscribeSnapshot =>
    refine hok.register ok _ _ _ rfl rfl .attached ?_
    rw [← ok.snapshot]
    exact stateOk_attach hcur hw hcur.ansi_ne _
  | recv i q q' result hq _ hrecv =>
    have hnone : ∀ j, j ≠ i → eventTo j ⟨.recv i, .received result⟩ = none := fun j hj => by
      cases result with
      | event e => simp only [eventTo]; rw [if_neg (Ne.symm hj)]
      | ended | pending => rfl
    refine hok.keep (fun j hj => ?_) fun j hj => hnone j ?_
    · by_cases hji : j = i
      · subst hji
        exact (hok.tracked j hj).recv ok hq hrecv
      · exact (hok.tracked j hj).quiet (hnone j hji) rfl (update_of_ne hji _ _) rfl
    · have := ok.alive i q hq
      omega
  | drop i q hq =>
    refine hok.keep fun j hj => (hok.tracked j hj).keep rfl fun v q' hq' hs => ?_
    by_cases hji : j = i
    · subst hji
      simp at hq'
    · simp only [update_of_ne hji] at hq'
      obtain ⟨h1, h2⟩ := hs q' hq'
      rw [pushed_quiet tr]
      exact ⟨h1, h2.mono fun T hT => hT.snoc _⟩

theorem subscribersOk_run
    (hr : HubRun M historyLimit subscriberLimit rows cols tr h) :
    SubscribersOk M rows cols tr h := by
  obtain ⟨h0, hnew, hrun⟩ := hr
  refine Runs.Run.history (subscribersOk_new hnew) ?_ hrun
  intro tr t l u hrun hok hs
  have ok := hubOk_run ⟨h0, hnew, hrun⟩
  exact subscribersOk_effect ok hok (step_effect M ok hs)

/-- **Subscriber stream fidelity.** In every run of a hub, every subscriber
has a view that follows the trace, and what it received covers the stream
from where it started to where it is: piece after piece, each data piece with
the pushed bytes at its range, and no offset left out. -/
theorem subscriber_stream_fidelity {historyLimit subscriberLimit : ℕ}
    (hr : HubRun M historyLimit subscriberLimit rows cols tr h) {c : Call}
    (hi : ⟨c, .subscribed (.ok i)⟩ ∈ tr) :
    ∃ v, Follows M rows cols i tr v ∧
      Covers (pushed tr) v.origin ((received i tr).filterMap piece) v.position ∧
      ((received i tr).filterMap piece).Pairwise (fun p q => p.stop ≤ q.start) ∧
      ∀ o, v.origin ≤ o → o < v.position →
        ∃ p ∈ (received i tr).filterMap piece, p.start ≤ o ∧ o < p.stop ∧ p.Of (pushed tr) := by
  have hok := subscribersOk_run hr
  obtain ⟨v, hf, hc, -⟩ := hok.tracked i (hok.named c i hi)
  refine ⟨v, hf, hc, hc.pairwise, fun o h1 h2 => ?_⟩
  obtain ⟨p, hp, hs, he⟩ := hc.exists_piece o h1 h2
  exact ⟨p, hp, hs, he, (hc.piece_of p hp).1⟩

/-- A subscriber whose replay is evicted from a ring of two bytes: the gap,
and the first fragment of the repaint. -/
theorem subscriber_stream_fidelity_evicted :
      ∃ tr h, HubRun blankTerminal 2 4 2 10 tr h ∧ received 0 tr = [.gap ⟨0, 4⟩ 4, .terminalSnapshot
        ⟨blankTerminal.snapshot (2, 10) 4, 0, 7, [0x1b, 0x5b, 0x32, 0x4a]⟩] ∧
      ∃ v, Follows blankTerminal 2 10 0 tr v ∧
        Covers (pushed tr) v.origin ((received 0 tr).filterMap piece) v.position := by
  let tr : List Label := [⟨.push [97, 98], .pushed (.ok ⟨0, [97, 98]⟩)⟩,
    ⟨.subscribe none, .subscribed (.ok 0)⟩, ⟨.push [99, 100], .pushed (.ok ⟨2, [99, 100]⟩)⟩,
    ⟨.recv 0, .received (.event (.gap ⟨0, 4⟩ 4))⟩,
    ⟨.recv 0, .received (.event (.terminalSnapshot
      ⟨blankTerminal.snapshot (2, 10) 4, 0, 7, [0x1b, 0x5b, 0x32, 0x4a]⟩))⟩]
  obtain ⟨h, hr⟩ : ∃ h, HubRun blankTerminal 2 4 2 10 tr h :=
    ⟨_, _, rfl, Runs.execAll_run (exec blankTerminal)
      [.push [97, 98], .subscribe none, .push [99, 100], .recv 0, .recv 0] rfl⟩
  refine ⟨tr, h, hr, rfl, ?_⟩
  have hi : (⟨.subscribe none, .subscribed (.ok 0)⟩ : Label) ∈ tr := by simp [tr]
  obtain ⟨v, h1, h2, -⟩ := subscriber_stream_fidelity hr hi
  exact ⟨v, h1, h2⟩

end EveryRun

end Pohunek.Output
