/-
# Exchanges answer their own request

Whatever callers are dropped, time out or fail, and wherever: an exchange that
returns an answer returns the worker's answer to its own frame, the bytes sent
are whole frames in the order of the exchanges up to one that may be torn, and
behind a write that was interrupted or failed, or a read that failed, nothing
is sent or answered.

`Sound` is the invariant. Either the stream is broken and free, or it is
usable, and then the answers that were not taken are exactly those that still
wait in the reader's queue or on the connection (`Usable`, `Place`): none is
left of an earlier exchange when a frame is sent.

Key theorems: `Sound.step`, `control_exchange_integrity`.
-/
import Pohunek.Control.Exchange

namespace Pohunek.Control

open ControlStream List Exchange Option Holder

variable {φ ρ : Type*} {codec : Codec φ}

/-! ### Lines -/

theorem completeLines_line {body : List UInt8} (h : newline ∉ body) (t : List UInt8) :
    completeLines (body ++ newline :: t) = body :: completeLines t := by
  unfold completeLines
  rw [LineLog.split_line t h]
  rfl

theorem completeLines_open {p : List UInt8} (h : newline ∉ p) : completeLines p = [] := by
  unfold completeLines
  by_cases hp : p = []
  · subst hp
    rfl
  · rw [LineLog.split_open h hp]
    rfl

variable {r : ControlRequest φ} {f : List UInt8}

theorem Codec.frame_eq (h : codec.frame r = .ok f) :
    ∃ body, f = body ++ [newline] ∧ newline ∉ body := by
  unfold frame line at h
  cases hencode : codec.encode r with
  | error e =>
    rw [hencode] at h
    exact nomatch h
  | ok bytes =>
    rw [hencode] at h
    simp only at h
    split_ifs at h
    · exact nomatch h
    · exact ⟨bytes, (Except.ok.inj h).symm, codec.oneLine r bytes hencode⟩

theorem Codec.frame_ne_nil (h : codec.frame r = .ok f) : f ≠ [] := by
  obtain ⟨body, rfl, -⟩ := Codec.frame_eq h
  simp

/-! ### What is over -/

namespace Exchange

/-- The exchange sent nothing or its whole frame. -/
def Whole (codec : Codec φ) (x : Exchange φ ρ) : Prop := x.written = [] ∨
    codec.frame x.request = .ok x.written

/-- The exchange sent nothing or the start of its frame. -/
def Framed (codec : Codec φ) (x : Exchange φ ρ) : Prop :=
  x.written = [] ∨ ∃ f, codec.frame x.request = .ok f ∧ x.written <+: f

/-- The write of the exchange was interrupted or failed, or a read failed. -/
def Breaks (x : Exchange φ ρ) : Prop :=
  x.outcome = some .interrupted ∨ (∃ e, x.outcome = some (.writeFailed e)) ∨ ∃ e,
    x.outcome = some (.readFailed e)

def Answered (x : Exchange φ ρ) (kind : ρ) : Prop := x.outcome = some (.answered kind)

def wrote (x : Exchange φ ρ) : Bool := !x.written.isEmpty

theorem Whole.framed {x : Exchange φ ρ} (h : x.Whole codec) : x.Framed codec :=
  h.imp_right fun hf => ⟨_, hf, prefix_refl _⟩

end Exchange

/-- The number of frames that were sent. -/
def framesOf (l : List (Exchange φ ρ)) : ℕ := (l.filter Exchange.wrote).length

theorem framesOf_snoc (l : List (Exchange φ ρ)) (x : Exchange φ ρ) :
    framesOf (l ++ [x]) = framesOf l + if x.written = [] then 0 else 1 := by
  unfold framesOf wrote
  by_cases hx : x.written = [] <;> simp [hx]

/-- Whole frames make a line each. -/
theorem completeLines_whole (t : List UInt8) : ∀ {l : List (Exchange φ ρ)},
    (∀ x ∈ l, x.Whole codec) → completeLines (l.flatMap (·.written) ++ t) =
      (l.filter wrote).map (·.written.dropLast) ++ completeLines t
  | [], _ => rfl
  | x :: l, h => by
    have hrest := completeLines_whole t fun y hy => h y (mem_cons_of_mem _ hy)
    rw [flatMap_cons, append_assoc, filter_cons]
    rcases h x mem_cons_self with hnil | hframe
    · have hwrote : x.wrote = false := by simp [wrote, hnil]
      rw [hnil, nil_append, hrest, hwrote]
      rfl
    · obtain ⟨body, hbody, hline⟩ := Codec.frame_eq hframe
      have hwrote : x.wrote = true := by simp [wrote, hbody]
      rw [hwrote, if_pos rfl, map_cons, hbody, append_assoc, singleton_append,
        completeLines_line hline, hrest, dropLast_concat, cons_append]

/-- A frame that is being written makes a line when it is whole. -/
theorem completeLines_prefix {p : List UInt8} (hf : codec.frame r = .ok f) (hp : p <+: f) :
    (completeLines p).length = if p = f then 1 else 0 := by
  obtain ⟨body, rfl, hline⟩ := Codec.frame_eq hf
  rcases prefix_concat_iff.mp hp with rfl | hp
  · rw [if_pos rfl, completeLines_line hline]
    simp [completeLines_open (p := []) (by simp)]
  · have hne : p ≠ body ++ [newline] := by
      rintro rfl
      simpa using hp.length_le
    rw [if_neg hne, completeLines_open fun h => hline (hp.subset h)]
    rfl

/-- What holds of the exchanges that are over. -/
structure History (codec : Codec φ) (answers : List (ControlResponse ρ))
    (past : List (Exchange φ ρ)) : Prop where
  framed : ∀ x ∈ past, x.Framed codec
  order : past.Pairwise fun x y => y.written ≠ [] → x.Whole codec
  broken : past.Pairwise fun x y => x.Breaks → y.written = [] ∧ ∀ kind, ¬y.Answered kind
  answered : ∀ before x after kind, past = before ++ x :: after → x.Answered kind →
    codec.frame x.request = .ok x.written ∧
    answers[framesOf before]? = some ⟨x.request.requestId, kind⟩

namespace History

variable {answers : List (ControlResponse ρ)} {past : List (Exchange φ ρ)} {x : Exchange φ ρ}

theorem nil : History codec answers ([] : List (Exchange φ ρ)) where
  framed := by simp
  order := .nil
  broken := .nil
  answered := by simp

/-- The worker answers. -/
theorem answer (h : History codec answers past) (a : ControlResponse ρ) :
    History codec (answers ++ [a]) past where
  framed := h.framed
  order := h.order
  broken := h.broken
  answered before x after kind hsplit hx := by
    obtain ⟨hframe, hanswer⟩ := h.answered before x after kind hsplit hx
    obtain ⟨hlt, -⟩ := List.getElem?_eq_some_iff.mp hanswer
    exact ⟨hframe, by rw [getElem?_append_left hlt, hanswer]⟩

/-- One more exchange is over. -/
theorem snoc (h : History codec answers past) (hframed : x.Framed codec)
    (horder : x.written ≠ [] → ∀ y ∈ past, y.Whole codec)
    (hbroken : ∀ y ∈ past, y.Breaks → x.written = [] ∧ ∀ kind, ¬x.Answered kind)
    (hanswered : ∀ kind, x.Answered kind →
      codec.frame x.request = .ok x.written ∧
      answers[framesOf past]? = some ⟨x.request.requestId, kind⟩) :
    History codec answers (past ++ [x]) where
  framed := List.forall_mem_snoc h.framed hframed
  order := by
    refine pairwise_append.mpr ⟨h.order, pairwise_singleton _ _, fun y hy z hz hwritten => ?_⟩
    rw [mem_singleton.mp hz] at hwritten
    exact horder hwritten y hy
  broken := by
    refine pairwise_append.mpr ⟨h.broken, pairwise_singleton _ _, fun y hy z hz hbreaks => ?_⟩
    rw [mem_singleton.mp hz]
    exact hbroken y hy hbreaks
  answered before y after kind hsplit hy := by
    rcases eq_nil_or_concat after with rfl | ⟨after, z, rfl⟩
    · obtain ⟨rfl, hxy⟩ := append_inj' hsplit rfl
      obtain rfl := singleton_inj.mp hxy
      exact hanswered kind hy
    · have hsplit' : past ++ [x] = (before ++ y :: after) ++ [z] := by simpa using hsplit
      obtain ⟨rfl, -⟩ := append_inj' hsplit' rfl
      exact h.answered before y after kind rfl hy

end History

/-! ### The invariant -/

/-- Nothing that is over broke the stream. -/
def Clean (codec : Codec φ) (past : List (Exchange φ ρ)) :
    Prop := ∀ x ∈ past, x.Whole codec ∧ ¬x.Breaks

variable {past : List (Exchange φ ρ)}

/-- One more exchange behind a clean past. -/
theorem History.snoc_clean {answers : List (ControlResponse ρ)} {x : Exchange φ ρ}
    (h : History codec answers past) (hclean : Clean codec past) (hframed : x.Framed codec)
    (hanswered : ∀ kind, x.Answered kind →
      codec.frame x.request = .ok x.written ∧
      answers[framesOf past]? = some ⟨x.request.requestId, kind⟩) :
    History codec answers (past ++ [x]) :=
  h.snoc hframed (fun _ y hy => (hclean y hy).1)
  (fun y hy hbreaks => absurd hbreaks (hclean y hy).2) hanswered

/-- Where the exchanges are, with the number of answers that were taken. -/
inductive Place (codec : Codec φ) (past : List (Exchange φ ρ)) :
    Option (Holder φ) → Inner → ℕ → Prop
  | free {inner : Inner} (state : inner.streamState = .ready) (send : inner.sendState = .idle) :
      Place codec past none inner (framesOf past)
  /-- The last frame was abandoned, and its answer is still to be read. -/
  | left {inner : Inner} {taken : ℕ} {a : Abandoned} (state : inner.streamState = .unread a)
      (send : inner.sendState = .idle) (last : framesOf past = taken + 1) :
      Place codec past none inner taken
  | draining {inner : Inner} {taken : ℕ} {a : Abandoned} {h : Holder φ} {bound : ℕ}
      (phase : h.phase = .draining a bound)
      (written : h.written = []) (state : inner.streamState = .unread a)
      (send : inner.sendState = .idle)
      (last : framesOf past = taken + 1) : Place codec past (some h) inner taken
  | sending {inner : Inner} {h : Holder φ} {bound : ℕ} {rest : List UInt8}
      (phase : h.phase = .sending bound rest)
      (frame : codec.frame h.request = .ok (h.written ++ rest)) (state : inner.streamState = .ready)
      (send : inner.sendState = .inFlight) : Place codec past (some h) inner (framesOf past)
  | awaiting {inner : Inner} {h : Holder φ} {bound : Option ℕ} (phase : h.phase = .awaiting bound)
      (frame : codec.frame h.request = .ok h.written) {a : Abandoned}
      (state : inner.streamState = .unread a)
      (send : inner.sendState = .idle) : Place codec past (some h) inner (framesOf past)

theorem Clean.whole (h : Clean codec past) : ∀ x ∈ past, x.Whole codec :=
  fun x hx => (h x hx).1

namespace Place

variable {past : List (Exchange φ ρ)} {inner : Inner} {taken bound : ℕ} {rest : List UInt8}
    {h : Holder φ}

section

variable (hplace : Place codec past (some h) inner taken)
include hplace

/-- The holder has sent the start of its frame. -/
theorem framed :
    h.written = [] ∨ ∃ f, codec.frame h.request = .ok f ∧ h.written <+: f := by
  cases hplace with
  | draining phase written => exact .inl written
  | sending phase frame => exact .inr ⟨_, frame, prefix_append _ _⟩
  | awaiting phase frame => exact .inr ⟨_, frame, prefix_refl _⟩

theorem inFlight (hphase : h.phase = .sending bound rest) :
    inner.sendState = .inFlight ∧ inner.streamState = .ready ∧ taken = framesOf past ∧
      codec.frame h.request = .ok (h.written ++ rest) := by
  cases hplace with
  | draining phase => exact absurd (phase.symm.trans hphase) nofun
  | awaiting phase => exact absurd (phase.symm.trans hphase) nofun
  | sending phase frame state send =>
    obtain ⟨rfl, rfl⟩ := Phase.sending.inj (phase.symm.trans hphase)
    exact ⟨send, state, rfl, frame⟩

/-- A guard that is dropped during a write marks it. -/
theorem dropGuard (hphase : h.phase = .sending bound rest) :
    inner.dropGuard.sendState = .interrupted := by
  obtain ⟨hsend, -⟩ := inFlight hplace hphase
  unfold Inner.dropGuard
  rw [if_pos hsend]

end

theorem frame {holder : Option (Holder φ)} {inner' : Inner}
    (hplace : Place codec past holder inner taken) (hstate : inner'.streamState = inner.streamState)
    (hsend : inner'.sendState = inner.sendState) : Place codec past holder inner' taken := by
  cases hplace with
  | free state send => exact .free (hstate.trans state) (hsend.trans send)
  | left state send last => exact .left (hstate.trans state) (hsend.trans send) last
  | draining phase written state send last =>
    exact .draining phase written (hstate.trans state) (hsend.trans send) last
  | sending phase frame state send =>
    exact .sending phase frame (hstate.trans state) (hsend.trans send)
  | awaiting phase frame state send =>
    exact .awaiting phase frame (hstate.trans state) (hsend.trans send)

end Place

namespace ControlMessage

def response? : ControlMessage ρ → Option (ControlResponse ρ)
  | response r => some r
  | _ => none

end ControlMessage

namespace ControlStream

/-- The answers that were not taken yet. -/
def waiting (s : ControlStream φ ρ) : List (ControlResponse ρ) :=
  (s.responses.messages ++ s.inbound).filterMap ControlMessage.response?

/-- The bytes of the exchange that holds the connection. -/
def holderWritten (s : ControlStream φ ρ) : List UInt8 := (s.holder.map (·.written)).getD []

/-- What an exchange that ends without breaking the stream leaves as it is. -/
structure Carries (codec : Codec φ) (s : ControlStream φ ρ) : Prop where
  clean : Clean codec s.past
  asked : s.answers.length ≤ (completeLines s.wire).length
  queued : ∀ m ∈ s.responses.messages, ∃ r, m = .response r
  honest : ∀ m ∈ s.inbound, m ≠ .request

/-- The stream carries exchanges: what waits are the answers after those that
were taken. -/
structure Usable (codec : Codec φ) (s : ControlStream φ ρ) : Prop extends Carries codec s where
  place : ∃ taken, Place codec s.past s.holder s.inner taken ∧ taken ≤ s.answers.length ∧
    s.waiting = s.answers.drop taken

/-- The stream is broken, and nobody holds it. -/
def Broken (s : ControlStream φ ρ) : Prop :=
  s.holder = none ∧ (s.inner.streamState = .torn ∨ s.inner.sendState = .interrupted)

structure Sound (codec : Codec φ) (s : ControlStream φ ρ) : Prop where
  wire : s.wire = s.past.flatMap (·.written) ++ s.holderWritten
  history : History codec s.answers s.past
  state : s.Usable codec ∨ s.Broken

theorem sound_new (deadlines : ExchangeDeadlines) :
    Sound codec (.new deadlines : ControlStream φ ρ) where
  wire := rfl
  history := .nil
  state := .inl ⟨⟨by simp [Clean, new], Nat.le_refl 0, by simp [new], by simp [new]⟩, 0,
  .free rfl rfl, Nat.le_refl 0, rfl⟩

variable {s t : ControlStream φ ρ} {h : Holder φ}

variable {inner : Inner} {outcome : Outcome ρ}

/-- The exchange behind a clean past ends and breaks the stream. -/
theorem Sound.of_breaking (hclean : Clean codec s.past) (hhistory : History codec s.answers s.past)
    (hwire : s.wire = s.past.flatMap (·.written) ++ h.written)
    (hframed : h.written = [] ∨ ∃ f, codec.frame h.request = .ok f ∧ h.written <+: f)
    (hinner : inner.streamState = .torn ∨ inner.sendState = .interrupted)
    (houtcome : ∀ kind, outcome ≠ .answered kind) : Sound codec (s.finish h inner outcome) where
  wire := by
    show s.wire = (s.past ++ [_]).flatMap _ ++ []
    rw [hwire]
    simp
  history := hhistory.snoc_clean hclean hframed fun kind hkind => absurd (some.inj hkind) (houtcome kind)
  state := .inr ⟨rfl, hinner⟩

/-- The exchange behind a clean past ends and leaves it clean. -/
theorem Sound.of_finishing (hc : Carries codec s) (hhistory : History codec s.answers s.past)
    (hwire : s.wire = s.past.flatMap (·.written) ++ h.written)
    (hwhole : h.written = [] ∨ codec.frame h.request = .ok h.written)
    (houtcome : (∃ kind, outcome = .answered kind) ∨ outcome = .dropped)
    (hanswered : ∀ kind, outcome = .answered kind → codec.frame h.request = .ok h.written ∧
      s.answers[framesOf s.past]? = some ⟨h.request.requestId, kind⟩)
    (hplace : ∃ taken,
      Place codec (s.past ++ [⟨h.request, h.written, some outcome⟩]) none inner taken ∧
      taken ≤ s.answers.length ∧
      s.waiting = s.answers.drop taken) : Sound codec (s.finish h inner outcome) where
  wire := by
    show s.wire = (s.past ++ [_]).flatMap _ ++ []
    rw [hwire]
    simp
  history := hhistory.snoc_clean hc.clean (Exchange.Whole.framed hwhole) fun kind hkind =>
    hanswered kind (some.inj hkind)
  state := by
    have hkept : ¬(Exchange.mk h.request h.written (some outcome)).Breaks := by
      rintro (hbreaks | ⟨e, hbreaks⟩ | ⟨e, hbreaks⟩) <;> obtain rfl :=
        some.inj hbreaks <;> simp at houtcome
    exact .inl ⟨{ hc with clean := List.forall_mem_snoc hc.clean ⟨hwhole, hkept⟩ }, hplace⟩

/-- An exchange sends when every answer was taken. -/
theorem Sound.send (hc : Carries codec s) (hhistory : History codec s.answers s.past)
    (hwire : s.wire = s.past.flatMap (·.written)) (hwritten : h.written = [])
    (hready : inner.streamState = .ready) (htaken : framesOf s.past ≤ s.answers.length)
    (hwaiting : s.waiting = s.answers.drop (framesOf s.past)) :
    Sound codec (s.send codec h inner) := by
  unfold ControlStream.send
  cases hframe : codec.frame h.request with
  | error e =>
    apply Sound.of_breaking hc.clean hhistory
    · rw [hwire, hwritten, append_nil]
    · exact .inl hwritten
    · exact .inr rfl
    · exact fun kind => nofun
  | ok frame =>
    refine ⟨?_, hhistory,
      .inl ⟨⟨hc.clean, hc.asked, hc.queued, hc.honest⟩, _, .sending rfl ?_ hready rfl,
      htaken, hwaiting⟩⟩
    · show s.wire = s.past.flatMap _ ++ h.written
      rw [hwire, hwritten, append_nil]
    · rw [hwritten, hframe, nil_append]

/-! ### The steps of an exchange -/

section

variable (hs : Sound codec s)
include hs

/-- A refused exchange sends nothing. -/
theorem Sound.refuse (hfree : s.holder = none) (hwritten : h.written = [])
    (hinner : inner.streamState = .torn) {e : WorkerError} :
    Sound codec (s.finish h inner (.refused e)) where
  wire := by
    have hwire := hs.wire
    rw [holderWritten, hfree] at hwire
    show s.wire = (s.past ++ [_]).flatMap _ ++ []
    rw [hwire]
    simp [hwritten]
  history := by
    apply hs.history.snoc (x := ⟨h.request, h.written, some (.refused e)⟩) (.inl hwritten)
    · exact fun hne => absurd hwritten hne
    · exact fun _ _ _ => ⟨hwritten, fun kind => nofun⟩
    · exact fun kind => nofun
  state := .inr ⟨rfl, .inl hinner⟩

theorem Sound.acquire {request : ControlRequest φ} {waits : Option StopWaits}
    (hstep : s.acquire codec request waits = some t) : Sound codec t := by
  unfold ControlStream.acquire at hstep
  split_ifs at hstep with hheld hstop
  · cases hstep
    have hfree : s.holder = none := by simpa using hheld
    have htorn : s.inner.streamState = .torn := by simpa using (Bool.and_eq_true_iff.mp hstop).2
    exact hs.refuse hfree rfl htorn
  · have hfree : s.holder = none := by simpa using hheld
    have hwire := hs.wire
    rw [holderWritten, hfree] at hwire
    simp only [map_none, getD_none, append_nil] at hwire
    rcases hs.state with husable | hbroken
    · obtain ⟨taken, hplace, htaken, hwaiting⟩ := husable.place
      rw [hfree] at hplace
      have hsame : s.inner.sendState = .idle → s.inner.reconcileInterruptedSend = s.inner :=
        fun send => by
        simp [Inner.reconcileInterruptedSend, send]
      cases hplace with
      | free state send =>
        simp only [hsame send, state] at hstep
        cases hstep
        exact Sound.send husable.toCarries hs.history hwire rfl state htaken hwaiting
      | left state send last =>
        simp only [hsame send, state] at hstep
        cases hstep
        refine ⟨?_, hs.history,
          .inl ⟨⟨husable.clean, husable.asked, husable.queued, husable.honest⟩, taken,
          .draining rfl rfl state send last, htaken, hwaiting⟩⟩
        show s.wire = s.past.flatMap _ ++ []
        rw [hwire, append_nil]
    · have htorn : s.inner.reconcileInterruptedSend.streamState = .torn := by
        unfold Inner.reconcileInterruptedSend
        split_ifs with hinterrupted
        · rfl
        · exact hbroken.2.resolve_right hinterrupted
      simp only [htorn] at hstep
      cases hstep
      exact hs.refuse hfree rfl htorn

/-- Whoever holds the connection holds a usable one. -/
theorem Sound.held (hholder : s.holder = some h) :
    Carries codec s ∧ s.wire = s.past.flatMap (·.written) ++ h.written ∧
      ∃ taken, Place codec s.past (some h) s.inner taken ∧ taken ≤ s.answers.length ∧
      s.waiting = s.answers.drop taken := by
  have husable : s.Usable codec :=
    hs.state.resolve_right fun hbroken => absurd (hbroken.1.symm.trans hholder) nofun
  refine ⟨husable.toCarries, ?_, hholder ▸ husable.place⟩
  rw [hs.wire, holderWritten, hholder]
  rfl

/-- The holder fails and breaks the stream. -/
theorem Sound.fail (hholder : s.holder = some h)
    (hinner : inner.streamState = .torn ∨ inner.sendState = .interrupted)
    (houtcome : ∀ kind, outcome ≠ .answered kind) : Sound codec (s.finish h inner outcome) := by
  obtain ⟨hc, hwire, taken, hplace, -⟩ := hs.held hholder
  exact Sound.of_breaking hc.clean hs.history hwire hplace.framed hinner houtcome

theorem Sound.write {n : ℕ} (hstep : s.write n = some t) : Sound codec t := by
  unfold ControlStream.write at hstep
  split at hstep
  · rename_i request waits written bound rest hholder
    split_ifs at hstep with hn
    cases hstep
    obtain ⟨hc, hwire, taken, hplace, htaken, hwaiting⟩ := hs.held hholder
    obtain ⟨hsend, hready, rfl, hframe⟩ := Place.inFlight hplace rfl
    have hrest : written ++ rest.take n ++ rest.drop n = written ++ rest := by
      rw [append_assoc, take_append_drop]
    refine ⟨?_, hs.history,
      .inl ⟨⟨hc.clean, ?_, hc.queued, hc.honest⟩, framesOf s.past,
      .sending rfl ?_ hready hsend, htaken, hwaiting⟩⟩
    · show s.wire ++ rest.take n = s.past.flatMap _ ++ (written ++ rest.take n)
      rw [hwire, append_assoc]
    · -- the frame was not whole, so no line of it was answered
      have hopen : written ≠ written ++ rest := by
        intro heq
        have hlength := congrArg List.length heq
        rw [length_append] at hlength
        omega
      have hasked := hc.asked
      have hbefore := completeLines_prefix hframe (prefix_append written rest)
      rw [if_neg hopen] at hbefore
      rw [hwire, completeLines_whole written (Clean.whole hc.clean), length_append,
        hbefore] at hasked
      show s.answers.length ≤ (completeLines (s.wire ++ rest.take n)).length
      rw [hwire, append_assoc, completeLines_whole _ (Clean.whole hc.clean), length_append]
      omega
    · rw [hrest]
      exact hframe
  · exact nomatch hstep

theorem Sound.sent (hstep : s.sent = some t) : Sound codec t := by
  unfold ControlStream.sent at hstep
  split at hstep
  · rename_i request waits written bound hholder
    cases hstep
    obtain ⟨hc, hwire, taken, hplace, htaken, hwaiting⟩ := hs.held hholder
    obtain ⟨-, -, rfl, hframe⟩ := Place.inFlight hplace rfl
    rw [append_nil] at hframe
    exact ⟨hwire, hs.history,
      .inl ⟨⟨hc.clean, hc.asked, hc.queued, hc.honest⟩, _, .awaiting rfl hframe rfl rfl, htaken,
      hwaiting⟩⟩
  · exact nomatch hstep

theorem Sound.sendFail {message : String} (hstep : s.sendFail message = some t) :
    Sound codec t := by
  unfold ControlStream.sendFail at hstep
  split at hstep
  · rename_i request waits written bound rest hholder
    cases hstep
    obtain ⟨-, -, taken, hplace, -⟩ := hs.held hholder
    exact hs.fail hholder (.inr (Place.dropGuard hplace rfl)) fun kind => nofun
  · exact nomatch hstep

theorem Sound.sendTimeout (hstep : s.sendTimeout = some t) : Sound codec t := by
  unfold ControlStream.sendTimeout at hstep
  split at hstep
  · rename_i request waits written bound rest hholder
    cases hstep
    apply hs.fail hholder
    · left
      unfold Inner.dropGuard
      split_ifs
      · rfl
      · rfl
    · exact fun kind => nofun
  · exact nomatch hstep

/-- A read that fails breaks the stream. -/
theorem Sound.received_error (hholder : s.holder = some h) {expected : String}
    (hexpects : expects h = some expected) (responses : Responses ρ) {e : WorkerError} :
    Sound codec ({ s with responses := responses }.received codec h inner (.error e)) := by
  obtain ⟨hc, hwire, taken, hplace, -⟩ := hs.held hholder
  have hbreaks : ∀ {inner : Inner} {outcome : Outcome ρ}, inner.streamState = .torn →
      (∀ kind, outcome ≠ .answered kind) →
      Sound codec ({ s with responses := responses }.finish h inner outcome) :=
      fun htorn houtcome =>
    Sound.of_breaking (s := { s with responses := responses }) hc.clean hs.history hwire
    hplace.framed (.inl htorn) houtcome
  cases hphase : h.phase with
  | draining a bound =>
    simp only [received, hphase]
    exact hbreaks rfl fun kind => nofun
  | awaiting bound =>
    simp only [received, hphase]
    exact hbreaks rfl fun kind => nofun
  | sending bound rest =>
    simp only [expects, hphase] at hexpects
    exact nomatch hexpects

/-- The answer an exchange takes is the next one that was not taken. -/
theorem Sound.received_ok (hholder : s.holder = some h) {r : ControlResponse ρ}
    {rest : List (ControlMessage ρ)} (hmessages : s.responses.messages = .response r :: rest)
    (hexpects : expects h = some r.requestId) :
    Sound codec ({ s with responses := { s.responses with messages := rest } }.received codec h
    s.inner (.ok r)) := by
  obtain ⟨hc, hwire, taken, hplace, htaken, hwaiting⟩ := hs.held hholder
  -- the answer is the one after those that were taken
  have hhead : s.answers.drop taken =
    r :: (rest ++ s.inbound).filterMap ControlMessage.response? := by
    rw [← hwaiting, waiting, hmessages]
    rfl
  have hnext : s.answers[taken]? = some r := by
    have hzero := congrArg (·[0]?) hhead
    simpa using hzero
  have hlt : taken + 1 ≤ s.answers.length := (List.getElem?_eq_some_iff.mp hnext).1
  have hrest : (rest ++ s.inbound).filterMap ControlMessage.response? = s.answers.drop
    (taken + 1) := by
    rw [← drop_drop, hhead]
    rfl
  have hqueued : ∀ m ∈ rest, ∃ r, m = .response r := fun m hm =>
    hc.queued m (hmessages ▸ mem_cons_of_mem _ hm)
  have hc' : Carries codec { s with responses := { s.responses with messages := rest } } :=
    { hc with queued := hqueued }
  cases hplace with
  | draining phase written state send last =>
    simp only [received, phase]
    rw [written, append_nil] at hwire
    apply Sound.send hc' hs.history hwire written rfl
    · exact last ▸ hlt
    · exact last ▸ hrest
  | sending phase =>
    simp only [expects, phase] at hexpects
    exact nomatch hexpects
  | awaiting phase frame state send =>
    simp only [received, phase]
    simp only [expects, phase, some.injEq] at hexpects
    have hne : h.written ≠ [] := Codec.frame_ne_nil frame
    have hcount : framesOf (s.past ++ [⟨h.request, h.written, some (.answered r.kind)⟩]) =
      framesOf s.past + 1 := by
      rw [framesOf_snoc, if_neg hne]
    apply Sound.of_finishing hc' hs.history hwire (.inr frame)
    · exact .inl ⟨_, rfl⟩
    · rintro kind ⟨⟩
      refine ⟨frame, ?_⟩
      rw [hnext, hexpects]
    · exact ⟨_, .free rfl send, hcount ▸ hlt, hcount ▸ hrest⟩

theorem Sound.receive (hstep : s.receive codec = some t) : Sound codec t := by
  obtain ⟨h, hholder, hstep⟩ := bind_eq_some_iff.mp hstep
  obtain ⟨hc, -⟩ := hs.held hholder
  cases hexpects : expects h with
  | none => simp [hexpects] at hstep
  | some expected =>
    cases hmessages : s.responses.messages with
    | nil =>
      cases hended : s.responses.ended with
      | none => simp [hexpects, Responses.next, hmessages, hended] at hstep
      | some reason =>
        simp only [hexpects, Responses.next, hmessages, hended, map_some] at hstep
        cases hstep
        exact hs.received_error hholder hexpects _
    | cons m rest =>
      obtain ⟨r, rfl⟩ := hc.queued m (hmessages ▸ mem_cons_self)
      simp only [hexpects, Responses.next, hmessages, readResponse] at hstep
      cases hstep
      by_cases hid : r.requestId = expected
      · rw [if_pos hid]
        exact hs.received_ok hholder hmessages (hexpects.trans (congrArg some hid.symm))
      · rw [if_neg hid]
        exact hs.received_error hholder hexpects _

theorem Sound.readTimeout (hstep : s.readTimeout codec = some t) : Sound codec t := by
  obtain ⟨h, hholder, hstep⟩ := bind_eq_some_iff.mp hstep
  split at hstep
  · rename_i a bound hphase
    cases hstep
    exact hs.received_error hholder (by rw [expects, hphase]) s.responses
  · rename_i bound hphase
    cases hstep
    exact hs.received_error hholder (by rw [expects, hphase]) s.responses
  · exact nomatch hstep

theorem Sound.drop (hstep : s.drop = some t) : Sound codec t := by
  obtain ⟨h, hholder, rfl⟩ := map_eq_some_iff.mp hstep
  obtain ⟨hc, hwire, taken, hplace, htaken, hwaiting⟩ := hs.held hholder
  have hsame : s.inner.sendState = .idle → s.inner.dropGuard = s.inner :=
    fun send => by simp [Inner.dropGuard, send]
  cases hplace with
  | sending phase frame state send =>
    rw [phase]
    exact hs.fail hholder
      (.inr (Place.dropGuard (.sending phase frame state send : Place codec s.past _ _ _) phase))
      fun kind => nofun
  | draining phase written state send last =>
    -- the answer is left to the next exchange
    rw [phase, hsame send]
    have hcount : framesOf (s.past ++ [⟨h.request, h.written, some .dropped⟩]) =
      framesOf s.past := by
      rw [framesOf_snoc, if_pos written, Nat.add_zero]
    apply Sound.of_finishing hc hs.history hwire (.inl written)
    · exact .inr rfl
    · exact fun kind => nofun
    · exact ⟨taken, .left state send (hcount.trans last), htaken, hwaiting⟩
  | awaiting phase frame state send =>
    rw [phase, hsame send]
    have hcount : framesOf (s.past ++ [⟨h.request, h.written, some .dropped⟩]) =
      framesOf s.past + 1 := by
      rw [framesOf_snoc, if_neg (Codec.frame_ne_nil frame)]
    apply Sound.of_finishing hc hs.history hwire (.inr frame)
    · exact .inr rfl
    · exact fun kind => nofun
    · exact ⟨_, .left state send hcount, htaken, hwaiting⟩

theorem Sound.stopTimeout (hstep : s.stopTimeout = some t) : Sound codec t := by
  obtain ⟨h, hholder, hstep⟩ := bind_eq_some_iff.mp hstep
  split at hstep
  · cases hstep
    exact hs.fail hholder (.inl rfl) fun kind => nofun
  · cases hstep
    exact hs.fail hholder (.inl rfl) fun kind => nofun
  · exact nomatch hstep

/-! ### The steps of the worker and the reader task -/

theorem Sound.answer {kind : ρ} (hstep : s.answer codec kind = some t) : Sound codec t := by
  obtain ⟨id, hid, rfl⟩ := map_eq_some_iff.mp hstep
  obtain ⟨line, hline, -⟩ := bind_eq_some_iff.mp hid
  have hlt : s.answers.length < (completeLines s.wire).length :=
    (List.getElem?_eq_some_iff.mp hline).1
  refine ⟨hs.wire, hs.history.answer _, hs.state.imp_left fun husable => ?_⟩
  obtain ⟨taken, hplace, htaken, hwaiting⟩ := husable.place
  refine ⟨⟨husable.clean, ?_, husable.queued, List.forall_mem_snoc husable.honest nofun⟩, taken,
    hplace, ?_, ?_⟩
  · rw [length_append]
    exact hlt
  · rw [length_append]
    omega
  · show (s.responses.messages ++ (s.inbound ++ [_])).filterMap _ = (s.answers ++ [_]).drop taken
    rw [← append_assoc, filterMap_append, drop_append_of_le_length htaken, ← hwaiting]
    rfl

end

/-- At most one answer waits. -/
theorem Usable.waiting_le (husable : s.Usable codec)
    (hwire : s.wire = s.past.flatMap (·.written) ++ s.holderWritten) : s.waiting.length ≤ 1 := by
  obtain ⟨taken, hplace, htaken, hwaiting⟩ := husable.place
  have hasked := husable.asked
  rw [hwire, completeLines_whole _ (Clean.whole husable.clean), length_append, length_map] at hasked
  have hcount : (s.past.filter wrote).length = framesOf s.past := rfl
  rw [hwaiting, length_drop]
  cases hholder : s.holder with
  | none =>
    rw [hholder] at hplace
    have hnone : (completeLines s.holderWritten).length = 0 := by
      rw [holderWritten, hholder]
      rfl
    cases hplace with
    | free => omega
    | left state send last => omega
  | some h =>
    rw [hholder] at hplace
    have hwritten : s.holderWritten = h.written := by rw [holderWritten, hholder]; rfl
    rw [hwritten] at hasked
    cases hplace with
    | draining phase written state send last =>
      rw [written] at hasked
      have hnone : (completeLines []).length = 0 := rfl
      omega
    | sending phase frame =>
      have hlines := completeLines_prefix frame (prefix_append h.written _)
      have hone : (completeLines h.written).length ≤ 1 := by
        rw [hlines]
        split_ifs <;> omega
      omega
    | awaiting phase frame =>
      have hlines := completeLines_prefix frame (prefix_refl h.written)
      rw [if_pos rfl] at hlines
      omega

/-- Another step of the reader task leaves the answers that wait. -/
theorem Sound.reads (hs : Sound codec s)
    (h : s.Usable codec → (∀ m ∈ t.responses.messages, ∃ r, m = .response r) ∧
      (∀ m ∈ t.inbound, m ≠ .request) ∧ t.waiting = s.waiting)
    (hsame : (t.wire, t.past, t.holder, t.answers) =
    (s.wire, s.past, s.holder, s.answers) := by
    rfl) (hinner : (t.inner.streamState, t.inner.sendState) =
    (s.inner.streamState, s.inner.sendState) := by rfl) : Sound codec t := by
  simp only [Prod.mk.injEq] at hsame hinner
  obtain ⟨hwire, hpast, hholder, hanswers⟩ := hsame
  refine ⟨?_, hanswers ▸ hpast ▸ hs.history, hs.state.imp (fun husable => ?_) fun hbroken => ?_⟩
  · rw [hwire, hpast, hs.wire, holderWritten, holderWritten, hholder]
  · obtain ⟨hqueued, hhonest, hwaits⟩ := h husable
    obtain ⟨taken, hplace, htaken, hwaiting⟩ := husable.place
    refine ⟨⟨hpast ▸ husable.clean, hanswers ▸ hwire ▸ husable.asked, hqueued, hhonest⟩, taken, ?_,
      hanswers ▸ htaken, ?_⟩
    · rw [hpast, hholder]
      exact hplace.frame hinner.1 hinner.2
    · rw [hwaits, hwaiting, hanswers]
  · rw [Broken, hholder, hinner.1, hinner.2]
    exact hbroken

theorem Sound.deliver (hs : Sound codec s) (hstep : s.deliver = some t) : Sound codec t := by
  unfold ControlStream.deliver at hstep
  split at hstep
  · rename_i message rest hended hinbound
    cases hstep
    refine hs.reads fun husable => ?_
    have hone := husable.waiting_le hs.wire
    rw [waiting, hinbound] at hone
    have hhonest : ∀ m ∈ rest, m ≠ .request :=
      fun m hm => husable.honest m (hinbound ▸ mem_cons_of_mem _ hm)
    unfold waiting
    rw [hinbound]
    cases message with
    | event =>
      refine ⟨husable.queued, hhonest, ?_⟩
      rw [filterMap_append, filterMap_append]
      rfl
    | request => exact absurd rfl (husable.honest .request (hinbound ▸ mem_cons_self))
    | response r =>
      -- a second answer would be one too many
      have hempty : s.responses.messages = [] := by
        cases hmessages : s.responses.messages with
        | nil => rfl
        | cons m messages =>
          obtain ⟨r', rfl⟩ := husable.queued m (hmessages ▸ mem_cons_self)
          rw [hmessages] at hone
          simp [ControlMessage.response?] at hone
      have hdeliver : s.responses.deliver (.response r) =
        { s.responses with messages := [.response r] } := by
        simp [Responses.deliver, hempty, responseQueue]
      simp only [hdeliver, hempty]
      exact ⟨by simp, hhonest, rfl⟩
  · exact nomatch hstep

/-- **Every step keeps the invariant.** -/
theorem Sound.step (hs : Sound codec s) {e : Event φ ρ} (hstep : s.step codec e = some t) :
    Sound codec t := by
  cases e with
  | acquire request waits => exact hs.acquire hstep
  | write n => exact hs.write hstep
  | sent => exact hs.sent hstep
  | sendFail message => exact hs.sendFail hstep
  | sendTimeout => exact hs.sendTimeout hstep
  | receive => exact hs.receive hstep
  | readTimeout => exact hs.readTimeout hstep
  | drop => exact hs.drop hstep
  | stopTimeout => exact hs.stopTimeout hstep
  | answer kind => exact hs.answer hstep
  | deliver => exact hs.deliver hstep
  | emit =>
    cases hstep
    refine hs.reads fun husable => ⟨husable.queued, List.forall_mem_snoc husable.honest nofun, ?_⟩
    show (s.responses.messages ++ (s.inbound ++ [_])).filterMap _ = _
    rw [← append_assoc, filterMap_append]
    exact append_nil _
  | close reason =>
    simp only [ControlStream.step, close] at hstep
    split at hstep
    · cases hstep
      exact hs.reads fun husable => ⟨husable.queued, husable.honest, rfl⟩
    · exact nomatch hstep
  | configure deadlines =>
    cases hstep
    exact hs.reads fun husable => ⟨husable.queued, husable.honest, rfl⟩

theorem sound_run {deadlines : ExchangeDeadlines} {tr : List (Event φ ρ)}
    (h : StreamRun codec deadlines tr s) : Sound codec s :=
  h.invariant (sound_new deadlines) fun ht hstep => ht.step hstep

/-- The exchanges up to now, the one that runs included. -/
theorem Sound.log (hs : Sound codec s) : History codec s.answers s.log := by
  unfold ControlStream.log
  cases hholder : s.holder with
  | none =>
    rw [map_none, toList_none, append_nil]
    exact hs.history
  | some h =>
    obtain ⟨hc, -, taken, hplace, -⟩ := hs.held hholder
    exact hs.history.snoc_clean hc.clean hplace.framed fun kind => nofun

end ControlStream

/-- **Exchanges keep their integrity under cancellation.** In every run of a
control stream: an exchange that returned an answer sent its whole frame, and
the answer is the worker's answer to the line of that frame; the bytes sent are
those of the exchanges in the order they acquired the stream, each a whole
frame or nothing, but for one that may have sent the start of its frame and
behind which nothing was sent; and behind an exchange whose write was
interrupted or failed or whose read failed none sends a byte or returns an
answer. -/
theorem control_exchange_integrity {deadlines : ExchangeDeadlines} {tr : List (Event φ ρ)}
    {s : ControlStream φ ρ} (hrun : StreamRun codec deadlines tr s) :
    (∀ before x after kind, s.log = before ++ x :: after → x.Answered kind →
      ∃ line, codec.frame x.request = .ok (line ++ [newline]) ∧
        (completeLines s.wire)[framesOf before]? = some line ∧
        s.answers[framesOf before]? = some ⟨x.request.requestId, kind⟩) ∧
    (s.wire = s.log.flatMap (·.written) ∧ (∀ x ∈ s.log, x.Framed codec) ∧
      s.log.Pairwise fun x y => y.written ≠ [] → x.Whole codec) ∧
    s.log.Pairwise fun x y => x.Breaks → y.written = [] ∧ ∀ kind, ¬y.Answered kind := by
  have hs := sound_run hrun
  have hhistory := hs.log
  have hwire : s.wire = s.log.flatMap (·.written) := by
    rw [hs.wire, log, flatMap_append, holderWritten]
    cases s.holder <;> simp
  refine ⟨fun before x after kind hsplit hx => ?_, ⟨hwire, hhistory.framed, hhistory.order⟩,
    hhistory.broken⟩
  obtain ⟨hframe, hanswer⟩ := hhistory.answered before x after kind hsplit hx
  obtain ⟨line, hline, hnewline⟩ := Codec.frame_eq hframe
  refine ⟨line, hline ▸ hframe, ?_, hanswer⟩
  -- what was sent before the frame are whole frames
  have hbefore : ∀ y ∈ before, y.Whole codec := by
    have horder := hhistory.order
    rw [hsplit, pairwise_append] at horder
    exact fun y hy => horder.2.2 y hy x mem_cons_self (Codec.frame_ne_nil hframe)
  have hlength : ((before.filter wrote).map (·.written.dropLast)).length = framesOf before := by
    rw [length_map]
    rfl
  rw [hwire, hsplit, flatMap_append, flatMap_cons, hline, completeLines_whole _ hbefore,
    append_assoc,
    singleton_append, completeLines_line hnewline, ← hlength, getElem?_append_right (Nat.le_refl _)]
  simp

/-! ### A cancelled and an interrupted caller -/

/-- Two requests with their lines. -/
def sampleLines : List (ControlRequest String × String) :=
  [(⟨"inspect-1", .inspect, "l-1"⟩,
    "\x7b\"request_id\":\"inspect-1\",\"type\":\"inspect\",\"lease_id\":\"l-1\"\x7d"),
    (⟨"inspect-2", .inspect, "l-1"⟩,
      "\x7b\"request_id\":\"inspect-2\",\"type\":\"inspect\",\"lease_id\":\"l-1\"\x7d")]

def asciiBytes (text : String) : List UInt8 := text.toList.map fun c => c.toNat.toUInt8

theorem sampleLines_oneLine : ∀ p ∈ sampleLines, newline ∉ asciiBytes p.2 := by decide +kernel

def sampleCodec : Codec String where
  encode r := ((sampleLines.find? fun p => p.1 = r).map fun p => asciiBytes p.2).elim
    (.error "unsupported") .ok
  requestId bytes := (sampleLines.find? fun p => asciiBytes p.2 = bytes).map (·.1.requestId)
  oneLine r bytes h := by
    cases hfind : sampleLines.find? fun p => p.1 = r with
    | none => simp [hfind] at h
    | some p =>
      obtain rfl : asciiBytes p.2 = bytes := by simpa [hfind] using h
      exact sampleLines_oneLine p (mem_of_find?_eq_some hfind)

/-- The first caller is dropped while it waits, the second takes its own
answer behind the abandoned one, the third is dropped during its write and the
fourth is refused. -/
def sampleEvents : List (Event String String) :=
  [.acquire ⟨"inspect-1", .inspect, "l-1"⟩ none, .write 20, .write 41, .sent, .drop,
    .acquire ⟨"inspect-2", .inspect, "l-1"⟩ none, .emit, .answer "first", .deliver, .deliver,
    .receive, .write 61, .sent,
    .answer "second", .deliver, .receive, .acquire ⟨"inspect-1", .inspect, "l-1"⟩ none,
    .write 10, .drop, .acquire ⟨"inspect-2", .inspect, "l-1"⟩ none]

theorem control_exchange_integrity_cancelled : ∃ s : ControlStream String String,
    StreamRun sampleCodec ⟨5, 5⟩ sampleEvents s ∧ s.log.map (·.outcome) =
      [some .dropped, some (.answered "second"), some .interrupted, some (.refused .tornStream)] ∧
    s.answers.map (·.kind) = ["first", "second"] ∧ s.wire = s.log.flatMap (·.written) := by
  have hrun : StreamRun sampleCodec ⟨5, 5⟩ sampleEvents _ :=
    Runs.steps_get _ _ _ (by decide +kernel)
  exact ⟨_, hrun, by decide +kernel, by decide +kernel, (control_exchange_integrity hrun).2.1.1⟩

end Pohunek.Control
