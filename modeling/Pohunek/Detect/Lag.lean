/-
# Lag warnings

`LagWarnThrottle` logs the first lag of a storm at once and folds the further
ones into a summary a window. A lag that comes an interval or more after the
last one starts a new storm: what is folded is dropped and the lag is logged,
however late the last summary was (`storm_drops_and_crowds`). Where `poll` is
called once an interval has passed since a folded lag, and the next storm stays
an interval away from that call, no skip is lost and the lines of `observe` and
`poll` stay an interval apart: that `poll` is no earlier than the summary
(`Kept.stormApart`).
-/
import Pohunek.Lib.Run

namespace Pohunek.Detect.Lag

open List Runs

def u64Max : ℕ := 2 ^ 64 - 1

def saturatingAdd (a b : ℕ) : ℕ := min (a + b) u64Max

/-- Times are instants of the monotonic clock. -/
structure LagWarnThrottle where
  interval : ℕ
  windowStarted : Option ℕ
  lastLagAt : Option ℕ
  pendingEvents : ℕ
  pendingSkipped : ℕ

inductive LagWarn
  | first (skipped : ℕ)
  | summary (events skipped : ℕ)

def LagWarn.skipped : LagWarn → ℕ
  | .first skipped | .summary _ skipped => skipped

namespace LagWarnThrottle

def new (interval : ℕ) : LagWarnThrottle := ⟨interval, none, none, 0, 0⟩

def continuesStorm (t : LagWarnThrottle) (now : ℕ) :
    Bool := t.lastLagAt.any fun last => now - last < t.interval

def observe (t : LagWarnThrottle) (now skipped : ℕ) : LagWarnThrottle × Option LagWarn :=
  if t.interval = 0 then (t, some (.first skipped))
  else if t.continuesStorm now then
    ({ t with
        lastLagAt := some now
        pendingEvents := saturatingAdd t.pendingEvents 1
        pendingSkipped := saturatingAdd t.pendingSkipped skipped
        windowStarted := some (t.windowStarted.getD now) }, none)
  else
    ({ t with lastLagAt := some now, windowStarted := some now, pendingEvents := 0, pendingSkipped := 0 },
      some (.first skipped))

def poll (t : LagWarnThrottle) (now : ℕ) : LagWarnThrottle × Option LagWarn :=
  match t.windowStarted with
  | none => (t, none)
  | some started =>
    if now - started < t.interval then (t, none)
    else if 0 < t.pendingEvents then
      ({ t with windowStarted := some now, pendingEvents := 0, pendingSkipped := 0 },
        some (.summary t.pendingEvents t.pendingSkipped))
    else ({ t with windowStarted := none }, none)

def flush (t : LagWarnThrottle) : LagWarnThrottle × Option LagWarn :=
  if 0 < t.pendingEvents then
    ({ t with windowStarted := none, pendingEvents := 0, pendingSkipped := 0 },
      some (.summary t.pendingEvents t.pendingSkipped))
  else (t, none)

end LagWarnThrottle

inductive Call
  | observe (now skipped : ℕ)
  | poll (now : ℕ)
  | flush

def Call.time : Call → Option ℕ
  | observe now _ | poll now => some now
  | flush => none

def Call.skips : Call → ℕ
  | observe _ skipped => skipped
  | poll _ | flush => 0

/-- The last lag of a sequence of calls, whether it came less than an interval
after the one before, and the polls since. -/
structure Lags where
  last : Option ℕ
  folded : Bool
  polls : List ℕ

namespace Lags

def next (interval : ℕ) (s : Lags) : Call → Lags
  | .observe now _ => ⟨some now, s.last.any (now < · + interval), []⟩
  | .poll now => { s with polls := now :: s.polls }
  | .flush => s

/-- A lag an interval or more after a folded one: a poll came an interval or
more after the one and before the other. -/
def polled (interval : ℕ) (s : Lags) : Call → Bool
  | .observe now _ => ∀ last ∈ s.last, s.folded → last + interval ≤ now →
      ∃ p ∈ s.polls, last + interval ≤ p ∧ p + interval ≤ now
  | .poll _ | .flush => true

end Lags

/-- The throttle with the time of the last call, the sums of the skips
observed and emitted, the times of the lines of `observe` and `poll`, and what
the calls were. -/
structure World where
  throttle : LagWarnThrottle
  now : ℕ
  observed : ℕ
  emitted : ℕ
  lines : List ℕ
  lags : Lags

namespace World

def new (interval : ℕ) : World := ⟨.new interval, 0, 0, 0, [], ⟨none, false, []⟩⟩

def answer (w : World) : Call → LagWarnThrottle × Option LagWarn
  | .observe now skipped => w.throttle.observe now skipped
  | .poll now => w.throttle.poll now
  | .flush => w.throttle.flush

def next (w : World) (c : Call) : World where
  throttle := (w.answer c).1
  now := c.time.getD w.now
  observed := w.observed + c.skips
  emitted := w.emitted + ((w.answer c).2.map LagWarn.skipped).getD 0
  lines := w.lines ++ ((w.answer c).2.bind fun _ => c.time).toList
  lags := w.lags.next w.throttle.interval c

/-- A call at a time that does not go back, with totals that do not overflow,
that was preceded by the poll it needs. -/
structure Step (w : World) (c : Call) (w' : World) : Prop where
  next : w' = w.next c
  time : ∀ now ∈ c.time, w.now ≤ now
  total : w'.observed ≤ u64Max
  polled : w.lags.polled w.throttle.interval c

/-- The folded lags wait for the window, which started no later than the last
of them. A line after the last lag is their summary, and no poll an interval
after that lag came before it. -/
structure Storm (interval now : ℕ) (t : LagWarnThrottle) (lines : List ℕ) (lags : Lags) : Prop where
  lag : t.lastLagAt = lags.last
  idle : t.pendingEvents = 0 → t.pendingSkipped = 0
  window : ∀ started, t.windowStarted = some started → started ≤ now
  folded : 0 < t.pendingEvents → lags.folded ∧ ∃ started last, t.windowStarted = some started ∧
    lags.last = some last ∧ started ≤ last ∧ ∀ p ∈ lags.polls, p < last + interval
  line : ∀ line ∈ lines, ∃ last, lags.last = some last ∧
    (line ≤ last ∨ lags.folded ∧ ∀ p ∈ lags.polls, last + interval ≤ p → line ≤ p)

structure Kept (interval : ℕ) (w : World) : Prop where
  interval_eq : w.throttle.interval = interval
  total : w.emitted + w.throttle.pendingSkipped = w.observed
  now : ∀ line ∈ w.lines, line ≤ w.now
  window : ∀ started, w.throttle.windowStarted = some started → ∀ line ∈ w.lines, line ≤ started
  spaced : w.lines.Pairwise fun line later => line + interval ≤ later
  storm : Storm interval w.now w.throttle w.lines w.lags

variable {interval : ℕ} {w w' : World} {c : Call}

section

open LagWarnThrottle

/-- A lag that starts a new storm finds nothing folded and the last line an
interval old. -/
def StormApart (w : World) : Call → Prop
  | .observe now _ => w.throttle.continuesStorm now = false →
      w.throttle.pendingSkipped = 0 ∧ ∀ line ∈ w.lines, line + w.throttle.interval ≤ now
  | .poll _ | .flush => True

theorem Kept.stormApart (h : Kept w.throttle.interval w) (hpos : 0 < w.throttle.interval)
    (hpolled : w.lags.polled w.throttle.interval c) : w.StormApart c := by
  obtain ⟨hlag, hidle, -, hfolded, hline⟩ := h.storm
  cases c with
  | poll | flush => trivial
  | observe now skipped =>
    have hpolled := of_decide_eq_true hpolled
    intro hnew
    have hlast : ∀ last, w.lags.last = some last → last + w.throttle.interval ≤ now := by
      intro last hlast
      rw [continuesStorm, hlag, hlast, Option.any_some, decide_eq_false_iff_not] at hnew
      omega
    refine ⟨hidle (Nat.eq_zero_of_not_pos fun hpending => ?_), fun line hmem => ?_⟩
    · -- the poll would have logged the summary
      obtain ⟨hfold, started, last, -, hl, -, hpolls⟩ := hfolded hpending
      obtain ⟨p, hp, hle, -⟩ := hpolled last hl hfold (hlast last hl)
      exact absurd (hpolls p hp) (Nat.not_lt.mpr hle)
    · obtain ⟨last, hl, hle | ⟨hfold, hpolls⟩⟩ := hline line hmem
      · exact (Nat.add_le_add_right hle _).trans (hlast last hl)
      · obtain ⟨p, hp, hle, hnow⟩ := hpolled last hl hfold (hlast last hl)
        exact (Nat.add_le_add_right (hpolls p hp hle) _).trans hnow

/-- The skips of a call are folded, or logged with all that is folded. -/
theorem answer_skipped (hstep : Step w c w') (hpos : 0 < w.throttle.interval)
    (htotal : w.emitted + w.throttle.pendingSkipped = w.observed) (hapart : w.StormApart c) :
    (w.answer c).1.pendingSkipped +
    ((w.answer c).2.map LagWarn.skipped).getD 0 = w.throttle.pendingSkipped + c.skips := by
  obtain ⟨rfl, -, hobserved, -⟩ := hstep
  have hsum : w.observed + c.skips ≤ u64Max := hobserved
  cases c <;> grind [answer, observe, poll, flush, Call.skips, LagWarn.skipped, saturatingAdd,
    StormApart]

/-- The window starts with the call, or it stays and no line is logged. -/
theorem answer_window (hpos : 0 < w.throttle.interval) {started : ℕ}
    (h : (w.answer c).1.windowStarted = some started) :
    c.time = some started ∨ (w.answer c).2 = none ∧ w.throttle.windowStarted = some started := by
  cases c <;> cases hwindow :
    w.throttle.windowStarted <;> grind [answer, observe, poll, flush, Call.time]

/-- A line of `observe` or `poll` comes an interval after the last one. -/
theorem answer_apart (h : Kept w.throttle.interval w) (hpos : 0 < w.throttle.interval)
    (hapart : w.StormApart c) (hline : (w.answer c).2 ≠ none) {now : ℕ} (hnow : c.time = some now) :
    ∀ line ∈ w.lines, line + w.throttle.interval ≤ now := by
  have hwindow := h.window
  cases c <;> grind [answer, observe, poll, flush, Call.time, StormApart]

theorem answer_interval : (w.answer c).1.interval = w.throttle.interval := by
  cases c <;> grind [answer, observe, poll, flush]

/-- What is folded, and the lines since the last lag, after a call. -/
theorem Storm.next {lines : List ℕ} {now : ℕ} (h : Storm w.throttle.interval now w.throttle lines w.lags)
    (hpos : 0 < w.throttle.interval) (hnow : ∀ line ∈ lines, line ≤ now) (htime : ∀ t ∈ c.time, now ≤ t) :
    Storm w.throttle.interval (c.time.getD now) (w.answer c).1
      (lines ++ ((w.answer c).2.bind fun _ => c.time).toList) (w.lags.next w.throttle.interval c) := by
  obtain ⟨hlag, hidle, hwindow, hfolded, hline⟩ := h
  cases c with
  | flush =>
    unfold answer flush
    constructor <;> grind [Lags.next, Call.time]
  | poll t =>
    have htime : now ≤ t := htime t rfl
    unfold answer poll
    constructor <;> grind [Lags.next, Call.time]
  | observe t skipped =>
    have htime : now ≤ t := htime t rfl
    have hstarted : w.throttle.windowStarted.getD t ≤ t := by
      cases hw : w.throttle.windowStarted with
      | none => exact Nat.le_refl t
      | some started => exact (hwindow started hw).trans htime
    simp only [answer, observe, if_neg hpos.ne', Lags.next]
    split
    · rename_i hstorm
      have hfold : (w.lags.last.any (t < · + w.throttle.interval)) = true := by
        rw [continuesStorm, hlag] at hstorm
        grind
      refine ⟨rfl, fun hnone => ?_, fun _ hs => Option.some.inj hs ▸ hstarted,
        fun _ => ⟨hfold, _, t, rfl, rfl, hstarted, nofun⟩, fun line hl => ⟨t, rfl, .inl ?_⟩⟩
      · dsimp only [saturatingAdd, u64Max] at hnone
        omega
      · exact (hnow line (by simpa using hl)).trans htime
    · refine ⟨rfl, fun _ => rfl, fun _ hs => (Option.some.inj hs).ge, nofun,
        fun line hl => ⟨t, rfl, .inl ?_⟩⟩
      rcases mem_append.mp hl with hl | hl
      · exact (hnow line hl).trans htime
      · exact (mem_singleton.mp hl).le

end

theorem Kept.step (hpos : 0 < interval) (h : Kept interval w) (hstep : Step w c w') :
    Kept interval w' := by
  obtain rfl := h.interval_eq
  have hstorm := h.stormApart hpos hstep.polled
  have hskipped := answer_skipped hstep hpos h.total hstorm
  have hapart := answer_apart h hpos hstorm
  obtain ⟨rfl, htime, -, -⟩ := hstep
  have hnow : ∀ now, c.time = some now → ∀ line ∈ (w.next c).lines, line ≤ now := by
    intro now hnow l hl
    rcases mem_append.mp hl with hl | hl
    · exact (h.now l hl).trans (htime now hnow)
    · obtain ⟨_, -, hl⟩ := Option.bind_eq_some_iff.mp (Option.mem_toList.mp hl)
      exact (Option.some.inj (hl.symm.trans hnow)).le
  have hlines : (w.answer c).2 = none ∨ c.time = none → (w.next c).lines = w.lines := by
    rintro (hnone | hnone) <;> simp [next, hnone]
  refine ⟨?_, ?_, ?_, fun started hstarted => ?_, ?_, h.storm.next hpos h.now htime⟩
  · exact answer_interval
  · have hsum := h.total
    simp only [next]
    omega
  · show ∀ line ∈ (w.next c).lines, line ≤ c.time.getD w.now
    cases hc : c.time with
    | none =>
      rw [hlines (.inr hc)]
      exact h.now
    | some now => exact hnow now hc
  · rcases answer_window hpos hstarted with hc | ⟨hnone, hstarted⟩
    · exact hnow started hc
    · rw [hlines (.inl hnone)]
      exact h.window started hstarted
  · refine pairwise_append.mpr ⟨h.spaced, ?_, fun l hl now hnow => ?_⟩
    · cases (w.answer c).2.bind fun _ => c.time <;> simp
    · obtain ⟨line, hline, hc⟩ := Option.bind_eq_some_iff.mp (Option.mem_toList.mp hnow)
      exact hapart (by simp [hline]) hc l hl

/-- **No skip is lost and the lines stay apart** while a storm that folded a
lag is followed by a poll an interval after its last lag, and by the next storm
an interval after that poll. -/
theorem skips_kept_lines_apart (hpos : 0 < interval) {calls : List Call}
    (h : Run Step (.new interval) calls w) :
    w.emitted + w.throttle.pendingSkipped = w.observed ∧
    w.lines.Pairwise fun line later => line + interval ≤ later := by
  have hkept : Kept interval w :=
    h.invariant ⟨rfl, rfl, nofun, nofun, .nil, rfl, fun _ => rfl, nofun, nofun, nofun⟩
    fun hw hstep => hw.step hpos hstep
  exact ⟨hkept.total, hkept.spaced⟩

theorem skips_kept_lines_apart_sample :
    ∃ w : World, w.emitted + w.throttle.pendingSkipped = 10 ∧ w.lines = [0, 6, 20] ∧
      w.emitted + w.throttle.pendingSkipped = w.observed := by
  have hrun : Run Step (.new 5) [.observe 0 1, .observe 1 2, .poll 6, .observe 20 4, .observe 21 3]
      ([.observe 0 1, .observe 1 2, .poll 6, .observe 20 4, .observe 21 3].foldl next (.new 5)) := by
    refine ((((Run.single ⟨rfl, ?_, ?_, ?_⟩).snoc ⟨rfl, ?_, ?_, ?_⟩).snoc ⟨rfl, ?_, ?_, ?_⟩).snoc
      ⟨rfl, ?_, ?_, ?_⟩).snoc ⟨rfl, ?_, ?_, ?_⟩
    all_goals decide
  exact ⟨_, by decide, by decide, (skips_kept_lines_apart (by decide) hrun).1⟩

/-- **A new storm drops what is folded and crowds the lines.** The two skips
folded at 1 are in no line and no longer pending; the lines at 5 and 9 are
less than an interval apart. -/
theorem storm_drops_and_crowds :
    (∃ w, w = [Call.observe 0 1, .observe 1 2, .observe 7 3].foldl next (.new 5) ∧
      w.emitted + w.throttle.pendingSkipped = 4 ∧ w.observed = 6) ∧
    ([Call.observe 0 1, .observe 4 1, .poll 5, .observe 9 1].foldl next (.new 5)).lines = [0, 5, 9] :=
  ⟨⟨_, rfl, by decide⟩, by decide⟩

end World
end Pohunek.Detect.Lag
