/-
# Reading the hub page by page

A client that keeps calling `observe(Some(cursor), max_bytes)` and takes the
page's `next_offset` as its next cursor, while the hub goes on: bytes are
pushed, the ring evicts, the output closes. `Paging` is such a run with the
pages the client has so far. In every state of it the next page exists and
is described by `PageOk`, and the pages so far cover the stream from the
first cursor to the current one (`observation_paging`).
-/
import Pohunek.Output.Steps
import Pohunek.Lib.Cover

namespace Pohunek.Output

open Cover ObservationPage OutputHub List

variable {τ : Type} {M : TerminalModel τ}

/-- The stretch of the stream a page stands for: its gap, if it has one, and
its bytes. -/
def ObservationPage.pieces (page : ObservationPage) : List (Piece UInt8) :=
  (page.gap.map fun g => Piece.gap g.start g.stop).toList ++ [.data page.startOffset page.bytes]

/-- A run of the hub with a client that started paging at `c0`: the pages it
got and its cursor. Between two pages the hub takes any steps. -/
inductive Paging (M : TerminalModel τ) (historyLimit subscriberLimit : ℕ)
    (rows cols : UInt16) (c0 : ℕ) : List Label → OutputHub τ → List ObservationPage → ℕ → Prop
  | start {tr : List Label} {h : OutputHub τ}
      (hr : HubRun M historyLimit subscriberLimit rows cols tr h)
      (hc : c0 ≤ h.inner.ring.nextOffset) :
      Paging M historyLimit subscriberLimit rows cols c0 tr h [] c0
  | other {tr : List Label} {h h' : OutputHub τ} {pages : List ObservationPage} {cursor :
    ℕ} {l : Label}
      (hp : Paging M historyLimit subscriberLimit rows cols c0 tr h pages cursor)
      (hs : Step M h l h') :
      Paging M historyLimit subscriberLimit rows cols c0 (tr ++ [l]) h' pages cursor
  | page {tr : List Label} {h h' : OutputHub τ} {pages : List ObservationPage} {cursor maxBytes : ℕ}
      {page : ObservationPage}
      (hp : Paging M historyLimit subscriberLimit rows cols c0 tr h pages cursor)
      (hm : 0 < maxBytes)
      (hs : Step M h ⟨.observe (some cursor) maxBytes, .observed (.ok page)⟩ h') :
      Paging M historyLimit subscriberLimit rows cols c0
        (tr ++ [⟨.observe (some cursor) maxBytes, .observed (.ok page)⟩]) h' (pages ++ [page])
        page.nextOffset

/-- What a page says about the stream `s`, asked for at `cursor` while the
ring starts at `start` and the hub's completion is `completion`. -/
structure PageOk (s : List UInt8) (start cursor : ℕ) (completion : Option OutputCompletion)
    (page : ObservationPage) : Prop where
  historyStart : page.historyStartOffset = start
  runtimeEnd : page.runtimeEndOffset = s.length
  gap : page.gap = if cursor < start then some ⟨cursor, start⟩ else none
  bytes : page.bytes = s.extract page.startOffset page.nextOffset
  pieces : Covers s cursor page.pieces page.nextOffset
  hasMore : page.hasMore = true ↔ page.nextOffset < page.runtimeEndOffset
  mono : cursor ≤ page.nextOffset
  bound : page.nextOffset ≤ s.length
  exited : page.exited → page.hasMore = false →
    ∃ c, completion = some c ∧ page.nextOffset = c.nextOffset

variable {cursor : ℕ}

/-- `observe` at a cursor that is not ahead: the page starts at the cursor, or
where the ring does. -/
theorem observe_some (hub : HubState τ) {maxBytes : ℕ} (hc : cursor ≤ hub.ring.nextOffset)
    (hm : 0 < maxBytes) : hub.observe (some cursor) maxBytes = .ok
      { historyStartOffset := hub.ring.startOffset
        startOffset := max cursor hub.ring.startOffset
        nextOffset := satAdd (max cursor hub.ring.startOffset)
          (hub.ring.bytesFromLimited (max cursor hub.ring.startOffset) maxBytes).length
        runtimeEndOffset := hub.ring.nextOffset
        bytes := hub.ring.bytesFromLimited (max cursor hub.ring.startOffset) maxBytes
        gap := if cursor < hub.ring.startOffset then some ⟨cursor, hub.ring.startOffset⟩ else none
        hasMore := decide (satAdd (max cursor hub.ring.startOffset)
          (hub.ring.bytesFromLimited (max cursor hub.ring.startOffset) maxBytes).length <
            hub.ring.nextOffset)
        exited := hub.completion.isSome } := by
  have hpos : maxBytes ≠ 0 := by omega
  unfold HubState.observe HubState.validateOffset
  simp only [Option.getD_some, if_neg hpos, if_neg (not_lt.mpr hc), bind, Except.bind, pure,
    Except.pure]
  by_cases hlt : cursor < hub.ring.startOffset
  · simp only [if_pos hlt, max_eq_right hlt.le]
  · simp only [if_neg hlt, max_eq_left (not_lt.mp hlt)]

variable {tr : List Label} {h : OutputHub τ} {rows cols : UInt16}

/-- **One page.** A cursor that is not ahead gets a page, and the page tells
the truth about the stream. -/
theorem observe_ok
    (ok : HubOk M rows cols tr h) {maxBytes : ℕ} (hc : cursor ≤ (pushed tr).length)
    (hm : 0 < maxBytes) :
    ∃ page, h.inner.observe (some cursor) maxBytes = .ok page ∧
      PageOk (pushed tr) h.inner.ring.startOffset cursor h.inner.completion page := by
  have hnext := ok.ring.next
  have hstart := ok.ring.start
  have hfits := ok.ring.fits
  refine ⟨_, observe_some h.inner (hnext ▸ hc) hm, ?_⟩
  rw [OutputRing.bytesFromLimited_spec ok.ring (le_max_right _ _) maxBytes, hnext]
  generalize hs : max cursor h.inner.ring.startOffset = start
  have hlen : ((pushed tr).extract start (start + maxBytes)).length =
      min maxBytes ((pushed tr).length - start) := by
    simp only [extract, length_take, length_drop]; omega
  have hbytes : (pushed tr).extract start (start + maxBytes) =
      (pushed tr).extract start (start + min maxBytes ((pushed tr).length - start)) := by
    simp only [extract, Nat.add_sub_cancel_left]
    rw [← length_drop, take_eq_take_min]
  rw [satAdd_eq (by omega), hlen]
  have hof : (Piece.data start ((pushed tr).extract start (start + maxBytes))).Of (pushed tr) := by
    refine ⟨?_, by omega⟩
    rw [hlen, ← hbytes]
  have hdata : Covers (pushed tr) start [.data start ((pushed tr).extract start (start + maxBytes))]
      (start + min maxBytes ((pushed tr).length - start)) :=
      ⟨rfl, hof, by simp only [Covers, Piece.stop, hlen]⟩
  refine ⟨rfl, rfl, rfl, hbytes, ?_, by simp only [decide_eq_true_eq], by simp only; omega,
    by simp only; omega, ?_⟩
  · by_cases hlt : cursor < h.inner.ring.startOffset
    · have hgap : Covers (pushed tr) cursor [.gap cursor h.inner.ring.startOffset] start :=
        ⟨rfl, ⟨hlt, hstart⟩, by simp only [Covers, Piece.stop]; omega⟩
      rw [if_pos hlt]
      exact hgap.append hdata
    · obtain rfl : start = cursor := by omega
      rw [if_neg hlt]
      exact hdata
  · intro hexit hmore
    obtain ⟨c, hcc⟩ := Option.isSome_iff_exists.mp hexit
    refine ⟨c, hcc, ?_⟩
    have hend := ok.sealed c hcc
    simp only [decide_eq_false_iff_not, not_lt] at hmore
    simp only
    omega

/-! ### Every run of the client -/

variable {historyLimit subscriberLimit : ℕ} {pages : List ObservationPage}

theorem paging_run {c0 : ℕ}
    (hp : Paging M historyLimit subscriberLimit rows cols c0 tr h pages cursor) :
    HubRun M historyLimit subscriberLimit rows cols tr h := by
  induction hp with
  | start hr => exact hr
  | other _ hs ih => exact ih.append (Runs.Run.single hs)
  | page _ _ hs ih => exact ih.append (Runs.Run.single hs)

/-- The cursor stays within the stream and the pages cover it up to there. -/
theorem paging_covers {c0 : ℕ}
    (hp : Paging M historyLimit subscriberLimit rows cols c0 tr h pages cursor) :
    cursor ≤ (pushed tr).length ∧ Covers (pushed tr) c0 (pages.flatMap pieces) cursor := by
  induction hp with
  | start hr hc =>
    rw [(hubOk_run hr).ring.next] at hc
    exact ⟨hc, rfl⟩
  | @other tr h h' pages cursor l hp hs ih =>
    rw [pushed_snoc]
    exact ⟨ih.1.trans (by simp), ih.2.grow l.bytes⟩
  | @page tr h h' pages cursor maxBytes page hp hm hs ih =>
    have ok := hubOk_run (paging_run hp)
    obtain ⟨page', ho, hpage⟩ := observe_ok ok ih.1 hm
    have he : page' = page := by
      change h.exec M (.observe (some cursor) maxBytes) = some (h', .observed (.ok page)) at hs
      simp only [exec, ho, Option.some.injEq, Prod.mk.injEq, Answer.observed.injEq,
        Except.ok.injEq] at hs
      exact hs.2
    subst he
    rw [pushed_snoc]
    simp only [Label.bytes, append_nil, flatMap_append, flatMap_cons, flatMap_nil]
    exact ⟨hpage.bound, ih.2.append hpage.pieces⟩

/-- **Observation paging.** In every state of every paging run the next call
answers a page as `PageOk` says, and the gaps and bytes of the pages so far
cover the stream from the first cursor to the current one without overlap;
a page that reports the exit and no more bytes ends at the final offset,
which no later step moves. -/
theorem observation_paging {historyLimit subscriberLimit : ℕ} {rows cols : UInt16} {c0 : ℕ}
    {tr : List Label} {h : OutputHub τ} {pages : List ObservationPage} {cursor : ℕ}
    (hp : Paging M historyLimit subscriberLimit rows cols c0 tr h pages cursor) :
    Covers (pushed tr) c0 (pages.flatMap pieces) cursor ∧
    (pages.flatMap pieces).Pairwise (fun p q => p.stop ≤ q.start) ∧
      ∀ maxBytes, 0 < maxBytes → ∃ page, h.inner.observe (some cursor) maxBytes = .ok page ∧
      PageOk (pushed tr) h.inner.ring.startOffset cursor h.inner.completion page ∧
      (page.exited → page.hasMore = false → ∀ tr' h', Runs.Run (Step M) h tr' h' →
        h'.inner.ring.nextOffset = page.nextOffset) := by
  have hr := paging_run hp
  have ok := hubOk_run hr
  obtain ⟨hle, hc⟩ := paging_covers hp
  refine ⟨hc, hc.pairwise, fun maxBytes hm => ?_⟩
  obtain ⟨page, ho, hpage⟩ := observe_ok ok hle hm
  refine ⟨page, ho, hpage, fun hexit hmore tr' h' hr' => ?_⟩
  obtain ⟨c, hcc, hfinal⟩ := hpage.exited hexit hmore
  rw [(hubOk_run (hr.append hr')).ring.next, (hr.sealed hcc hr').2, hfinal]

/-- A client that starts at 0, in a ring of two bytes to which four are pushed:
it is given the gap and a byte and, after the close, the last byte. -/
theorem observation_paging_evicted :
    ∃ tr h pages, Paging blankTerminal 2 4 2 10 0 tr h pages 4 ∧
      pages.flatMap pieces = [.gap 0 2, .data 2 [99], .data 3 [100]] ∧
      Covers (pushed tr) 0 (pages.flatMap pieces) 4 := by
  let first : ObservationPage := ⟨2, 2, 3, 4, [99], some ⟨0, 2⟩, true, false⟩
  let last : ObservationPage := ⟨2, 3, 4, 4, [100], none, false, true⟩
  have hr : HubRun blankTerminal 2 4 2 10
      [⟨.push [97, 98, 99, 100], .pushed (.ok ⟨0, [97, 98, 99, 100]⟩)⟩] _ :=
    ⟨_, rfl, Runs.execAll_run (exec blankTerminal) [.push [97, 98, 99, 100]] rfl⟩
  have hp1 := Paging.page (.start hr (Nat.zero_le _)) Nat.one_pos
    (show Step blankTerminal _ ⟨.observe (some 0) 1, .observed (.ok first)⟩ _ from rfl)
  have hp2 := Paging.other hp1
    (show Step blankTerminal _ ⟨.close .eof, .closed (.eof 4)⟩ _ from rfl)
  have hp3 := Paging.page hp2 (Nat.succ_pos 4)
    (show Step blankTerminal _ ⟨.observe (some 3) 5, .observed (.ok last)⟩ _ from rfl)
  exact ⟨_, _, _, hp3, rfl, (observation_paging hp3).1⟩

end Pohunek.Output
