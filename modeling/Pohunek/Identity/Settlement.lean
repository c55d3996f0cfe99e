/-
# What the verdict on a lost answer proves

`revision_state` judges a forwarded operation whose answer was lost by the
revisions seen on other exchanges. It compares with the fence the operation is
held against; the daemon reads that fence when it gives up on the answer, and
the identity-commit guard is what makes it the fence the operation was sent
at. Where the entry is replaced only while no identity operation of the
session is under way, the two agree (`System.Good`), and the verdicts are
sound: `settlement_sound`. A session adopted anew between the send and the
lost answer has another guard, and a journaled operation is judged rejected:
`journaled_operation_rejected`.

The argument for a rejection: the fence was known when the operation was
sent, so the worker was at or beyond it when it handled the request, and
beyond it afterwards had it journaled the request. A snapshot with a higher
number is handled later; at the very revision of the fence, it shows that the
request was not journaled, and its number is now behind.
-/
import Pohunek.Identity.Forward

namespace Pohunek.Identity

open List Option

open Runs (Run)
open ExchangeOrder

/-! ### The worker -/

namespace Worker

variable {w w' : Worker} {r : Request} {journals : Bool}

/-- The worker has handled this request or a later one. -/
def Past (w : Worker) (o : ExchangeOrder) : Prop := ∃ h, w.handled = some h ∧ (o = h ∨ o < h)

structure Good (w : Worker) : Prop where
  past : ∀ {o a}, (o, a) ∈ w.answers → w.Past o
  accepted_le : ∀ {o v}, (o, .accepted v) ∈ w.answers → v ≤ w.revision
  snapshot_le : ∀ {o v}, (o, .snapshot v) ∈ w.answers → v ≤ w.revision
  later : ∀ {o v o' v'}, (o, .accepted v) ∈ w.answers → (o', .snapshot v') ∈ w.answers →
    o < o' → v ≤ v'
  unique : ∀ {o o' v}, (o, .accepted v) ∈ w.answers → (o', .accepted v) ∈ w.answers → o = o'

theorem reply_cases (w : Worker) (journals : Bool) (kind : RequestKind) :
    ((∃ fence, kind = .forward fence) ∧
      w.reply journals kind = (w.revision + 1, .accepted (w.revision + 1))) ∨
    w.reply journals kind = (w.revision, .rejected) ∨
    w.reply journals kind = (w.revision, .snapshot w.revision) := by
  cases kind with
  | forward fence =>
    cases journals with
    | true => exact .inl ⟨⟨fence, rfl⟩, rfl⟩
    | false => exact .inr (.inl rfl)
  | inspect => exact .inr (.inr rfl)

theorem handle_eq_some (h : w.handle r journals = some w') :
    (∀ held, w.handled = some held → held < r.order) ∧
    w' = { revision := (w.reply journals r.kind).1, handled := some r.order,
           answers := w.answers ++ [(r.order, (w.reply journals r.kind).2)] } := by
  rw [handle] at h
  split at h
  · rename_i hnewer
    refine ⟨fun held hheld => ?_, (some.inj h).symm⟩
    rw [hheld] at hnewer
    exact of_decide_eq_true hnewer
  · cases h

theorem Past.lt {o order : ExchangeOrder} (h : w.Past o)
    (hnewer : ∀ held, w.handled = some held → held < order) : o < order := by
  obtain ⟨held, hheld, rfl | hlt⟩ := h
  · exact hnewer o hheld
  · exact lt_trans hlt (hnewer held hheld)

theorem Good.hookReport (hw : w.Good) : w.hookReport.Good where
  past h := hw.past h
  accepted_le h := Nat.le_succ_of_le (hw.accepted_le h)
  snapshot_le h := Nat.le_succ_of_le (hw.snapshot_le h)
  later h h' := hw.later h h'
  unique h h' := hw.unique h h'

/-- An answer to a newer request, at a revision in the order of the answers. -/
theorem Good.answer (hw : w.Good) {order : ExchangeOrder} {revision : ℕ} {a : Answer}
    (hnewer : ∀ held, w.handled = some held → held < order) (hrevision : w.revision ≤ revision)
    (haccepted : ∀ v, a = .accepted v → w.revision < v ∧ v ≤ revision)
    (hsnapshot : ∀ v, a = .snapshot v → w.revision ≤ v ∧ v ≤ revision) :
    Good { revision, handled := some order, answers := w.answers ++ [(order, a)] } := by
  have hmem : ∀ {o x}, (o, x) ∈ w.answers ++ [(order, a)] → (o, x) ∈ w.answers ∨ o = order ∧
    a = x := by
    intro o x hx
    simpa [eq_comm] using hx
  have hpast : ∀ {o x}, (o, x) ∈ w.answers → o < order := fun hx => (hw.past hx).lt hnewer
  refine ⟨fun ha => ?_, fun ha => ?_, fun ha => ?_, fun ha hs hlt => ?_, fun ha ha' => ?_⟩
  · rcases hmem ha with ha | ⟨rfl, -⟩
    · exact ⟨_, rfl, .inr (hpast ha)⟩
    · exact ⟨_, rfl, .inl rfl⟩
  · rcases hmem ha with ha | ⟨-, heq⟩
    · exact (hw.accepted_le ha).trans hrevision
    · exact (haccepted _ heq).2
  · rcases hmem ha with ha | ⟨-, heq⟩
    · exact (hw.snapshot_le ha).trans hrevision
    · exact (hsnapshot _ heq).2
  · rcases hmem hs with hold | ⟨ho', heq⟩
    · rcases hmem ha with hold' | ⟨ho, -⟩
      · exact hw.later hold' hold hlt
      · -- The new answer has the highest number so far.
        exact absurd (lt_trans (ho ▸ hlt) (hpast hold)) (lt_irrefl _)
    · rcases hmem ha with hold' | ⟨ho, -⟩
      · exact (hw.accepted_le hold').trans (hsnapshot _ heq).1
      · exact absurd hlt (ho.trans ho'.symm ▸ lt_irrefl _)
  · rcases hmem ha with hold | ⟨ho, heq⟩
    · rcases hmem ha' with hold' | ⟨-, heq'⟩
      · exact hw.unique hold hold'
      · exact absurd (hw.accepted_le hold) (haccepted _ heq').1.not_ge
    · rcases hmem ha' with hold' | ⟨ho', -⟩
      · exact absurd (hw.accepted_le hold') (haccepted _ heq).1.not_ge
      · exact ho.trans ho'.symm

theorem Good.handle (hw : w.Good) (h : w.handle r journals = some w') : w'.Good := by
  obtain ⟨hnewer, rfl⟩ := handle_eq_some h
  rcases w.reply_cases journals r.kind with ⟨-, hreply⟩ | hreply | hreply
  · rw [hreply]
    refine hw.answer hnewer (Nat.le_succ _) (fun v hv => ?_) nofun
    obtain rfl := Answer.accepted.inj hv
    exact ⟨Nat.lt_succ_self _, le_rfl⟩
  · rw [hreply]
    exact hw.answer hnewer le_rfl nofun nofun
  · rw [hreply]
    refine hw.answer hnewer le_rfl nofun fun v hv => ?_
    obtain rfl := Answer.snapshot.inj hv
    exact ⟨le_rfl, le_rfl⟩

/-- A worker keeps what it has answered, and goes only forward. -/
structure Follows (w w' : Worker) : Prop where
  answers : ∀ {x}, x ∈ w.answers → x ∈ w'.answers
  revision : w.revision ≤ w'.revision
  past : ∀ {o}, w.Past o → w'.Past o
  late : ∀ {o a}, w.Past o → (o, a) ∈ w'.answers → (o, a) ∈ w.answers

theorem Follows.refl (w : Worker) : w.Follows w := ⟨id, le_rfl, id, fun _ => id⟩

theorem follows_hookReport (w : Worker) : w.Follows w.hookReport :=
  ⟨id, Nat.le_succ _, id, fun _ => id⟩

theorem follows_handle (h : w.handle r journals = some w') : w.Follows w' := by
  obtain ⟨hnewer, rfl⟩ := handle_eq_some h
  refine ⟨fun hx => mem_append_left _ hx, ?_, fun ho => ⟨_, rfl, .inr (ho.lt hnewer)⟩,
    fun ho ha => ?_⟩
  · rcases w.reply_cases journals r.kind with ⟨-, hreply⟩ | hreply | hreply <;> rw [hreply]
    exact Nat.le_succ _
  · rcases mem_append.mp ha with ha | ha
    · exact ha
    · have heq := (Prod.mk.inj (mem_singleton.mp ha)).1
      exact absurd (heq ▸ ho.lt hnewer) (lt_irrefl _)

end Worker

/-! ### What a step does -/

namespace System

variable {s t : System} {i : Input}

theorem snapshotAt_mem {instance_ : String} {order : ExchangeOrder} {v : ℕ}
    (h : s.snapshotAt instance_ order = some v) :
    (order, .snapshot v) ∈ (s.workers instance_).answers := by
  obtain ⟨⟨o, a⟩, hmem, ha⟩ := exists_of_findSome?_eq_some h
  cases a with
  | snapshot v' =>
    simp only [ite_none_right_eq_some, some.injEq] at ha
    obtain ⟨rfl, rfl⟩ := ha
    exact hmem
  | accepted => cases ha
  | rejected => cases ha

theorem acceptedAt_mem {instance_ : String} {order : ExchangeOrder} {v : ℕ}
    (h : s.acceptedAt instance_ order = some v) :
    (order, .accepted v) ∈ (s.workers instance_).answers := by
  obtain ⟨⟨o, a⟩, hmem, ha⟩ := exists_of_findSome?_eq_some h
  cases a with
  | accepted v' =>
    simp only [ite_none_right_eq_some, some.injEq] at ha
    obtain ⟨rfl, rfl⟩ := ha
    exact hmem
  | snapshot => cases ha
  | rejected => cases ha

/-- What each input does, with what it needs. -/
inductive Moves (s : System) : Input → System → Prop
  | connect {instance_} : Moves s (.connect instance_) { s with peers := s.peers ++ [instance_] }
  | inspect {c instance_} : Moves s (.inspect c) (s.write ⟨instance_, s.nextOrder c, .inspect⟩)
  | handle {n journals r w} : r ∈ s.wire →
    (s.workers r.workerInstanceId).handle r journals = some w →
      Moves s (.handle n journals) (s.setWorker r.workerInstanceId w)
  | hookReport {instance_} :
      Moves s (.hookReport instance_) (s.setWorker instance_ (s.workers instance_).hookReport)
  | observe {instance_ order v} : (order, .snapshot v) ∈ (s.workers instance_).answers →
      Moves s (.observe instance_ order)
      { s with entry := (s.entry.observeIdentity ⟨instance_, v⟩ order).1 }
  | queue {op holder} : (holder = .sync ∨ ∃ op, holder = .forward op .holding) →
      Moves s (.queue op) { s with waiting := s.waiting ++ [(s.incarnation, holder)] }
  | acquire {n g holder} : (g, holder) ∈ s.waiting → s.guards g = none →
      Moves s (.acquire n) ({ s with waiting := s.waiting.eraseIdx n }.setGuard g (some holder))
  | prepare {g op} : s.guards g = some (.forward op .holding) →
      Moves s (.prepare g)
        (s.setGuard g (some (.forward op (.ready (s.entry.fenceAtSend op.workerInstanceId)))))
  | send {g op before} : s.guards g = some (.forward op (.ready before)) →
      Moves s (.send g)
      ((s.setGuard g (some (.forward op (.sent before (s.nextOrder op.connection))))).write
        ⟨op.workerInstanceId, s.nextOrder op.connection,
          .forward (s.entry.fenceAtSend op.workerInstanceId).revision⟩)
  | accept {g op before order v} : s.guards g = some (.forward op (.sent before order)) →
      (order, .accepted v) ∈ (s.workers op.workerInstanceId).answers →
      Moves s (.accept g) ({ s with
        entry := s.entry.noteForwarded (op.pending ⟨op.workerInstanceId, v⟩ true none) }.setGuard g
          (some (.forward op .accepted)))
  | refuse {g} : Moves s (.refuse g) (s.setGuard g none)
  | lose {g op before order} : s.guards g = some (.forward op (.sent before order)) →
      Moves s (.lose g) (s.setGuard g (some (.forward op
        (.unacknowledged
        (op.pending (s.entry.fenceAtSend op.workerInstanceId) false (some order))))))
  | attach {g op p} : s.guards g = some (.forward op (.unacknowledged p)) →
      Moves s (.attach g) ({ s with entry := s.entry.attachUnacknowledged p }.setGuard g none)
  | fail {g op before order} : s.guards g = some (.forward op (.sent before order)) →
      Moves s (.fail g)
      ({ s with loose := s.loose ++ [op.pending before false (some order)] }.setGuard g none)
  | attachLoose {n p} : p ∈ s.loose → Moves s (.attachLoose n)
      { s with entry := s.entry.attachUnacknowledged p, loose := s.loose.eraseIdx n }
  | apply {g h instance_ order v accepted ended} : s.guards g = some h → h.commits →
      (order, .snapshot v) ∈ (s.workers instance_).answers →
      Moves s (.apply g instance_ order accepted ended)
        { s with entry := s.entry.applySnapshot ⟨instance_, v⟩ accepted ended }
  | settle {g h} : s.guards g = some h → h.commits →
      Moves s (.settle g) { s with entry := s.entry.settlePendingActivity }
  | release {g} : Moves s (.release g) (s.setGuard g none)
  | adopt {instance_ order v applied} : (order, .snapshot v) ∈ (s.workers instance_).answers →
      Moves s (.adopt instance_ order applied)
        { s with entry := .adopted ⟨instance_, v⟩ applied, incarnation := s.incarnations,
                 incarnations := s.incarnations + 1 }
  | clone : Moves s .clone { s with clones := s.clones ++ [(s.incarnation, s.entry)] }
  | install {n c} : c ∈ s.clones → Moves s (.install n) { s with entry := c.2, incarnation := c.1 }

theorem Step.moves (h : s.Step i t) : s.Moves i t := by
  revert h
  unfold Step
  fun_cases s.step i with
  | case1 => rintro ⟨⟩; exact .connect
  | case2 =>
    intro h
    obtain ⟨instance_, -, rfl⟩ := map_eq_some_iff.mp h
    exact .inspect
  | case3 =>
    intro h
    obtain ⟨r, hr, h⟩ := bind_eq_some_iff.mp h
    obtain ⟨w, hw, rfl⟩ := map_eq_some_iff.mp h
    exact .handle (mem_of_getElem? hr) hw
  | case4 => rintro ⟨⟩; exact .hookReport
  | case5 =>
    intro h
    obtain ⟨v, hv, rfl⟩ := map_eq_some_iff.mp h
    exact .observe (snapshotAt_mem hv)
  | case6 op =>
    rintro ⟨⟩
    refine .queue ?_
    cases op with
    | none => exact .inl rfl
    | some op => exact .inr ⟨op, rfl⟩
  | case7 =>
    intro h
    obtain ⟨⟨g, holder⟩, hw, h⟩ := bind_eq_some_iff.mp h
    dsimp only at h
    split at h
    · rename_i hfree
      cases h
      exact .acquire (mem_of_getElem? hw) hfree
    · cases h
  | case8 _ _ hg => rintro ⟨⟩; exact .prepare hg
  | case11 _ _ _ hg => rintro ⟨⟩; exact .send hg
  | case13 _ _ _ _ hg =>
    intro h
    obtain ⟨v, hv, rfl⟩ := map_eq_some_iff.mp h
    exact .accept hg (acceptedAt_mem hv)
  | case15 | case16 | case17 => rintro ⟨⟩; exact .refuse
  | case20 _ _ _ _ hg => rintro ⟨⟩; exact .lose hg
  | case22 _ _ _ hg => rintro ⟨⟩; exact .attach hg
  | case24 _ _ _ _ hg => rintro ⟨⟩; exact .fail hg
  | case26 =>
    intro h
    obtain ⟨p, hp, rfl⟩ := map_eq_some_iff.mp h
    exact .attachLoose (mem_of_getElem? hp)
  | case27 _ _ _ _ _ hcommits =>
    intro h
    obtain ⟨holder, hg, hc⟩ := (any_eq_true _ _).mp hcommits
    obtain ⟨v, hv, rfl⟩ := map_eq_some_iff.mp h
    exact .apply hg hc (snapshotAt_mem hv)
  | case29 _ hcommits =>
    rintro ⟨⟩
    obtain ⟨holder, hg, hc⟩ := (any_eq_true _ _).mp hcommits
    exact .settle hg hc
  | case31 => rintro ⟨⟩; exact .release
  | case33 =>
    intro h
    obtain ⟨v, hv, rfl⟩ := map_eq_some_iff.mp h
    exact .adopt (snapshotAt_mem hv)
  | case34 => rintro ⟨⟩; exact .clone
  | case35 =>
    intro h
    obtain ⟨c, hc, rfl⟩ := map_eq_some_iff.mp h
    exact .install (mem_of_getElem? hc)
  | _ => rintro ⟨⟩

/-! ### The requests on the wire -/

/-- Requests are numbered apart, a forwarded one was sent at a fence the worker
had reached, and one that was journaled took the worker beyond it. -/
structure Exchanges (workers : String → Worker) (wire : List Request) : Prop where
  good : ∀ instance_, (workers instance_).Good
  numbered : ∀ r ∈ wire, r.order.exchange ≤ wire.countP fun x => x.order.connection =
    r.order.connection
  distinct : ∀ r ∈ wire, ∀ r' ∈ wire, r.order = r'.order → r = r'
  reached : ∀ r ∈ wire, ∀ fence, r.kind = .forward fence →
    fence ≤ (workers r.workerInstanceId).revision
  beyond : ∀ {instance_ o v}, (o, .accepted v) ∈ (workers instance_).answers →
    ∃ r ∈ wire, r.order = o ∧ r.workerInstanceId = instance_ ∧ ∃ fence,
    r.kind = .forward fence ∧ fence < v

variable {r : Request}

theorem Exchanges.write (h : Exchanges s.workers s.wire) {c : ℕ} (horder : r.order = s.nextOrder c)
    (hfence : ∀ fence, r.kind = .forward fence → fence ≤ (s.workers r.workerInstanceId).revision) :
    Exchanges (s.write r).workers (s.write r).wire := by
  have hcount : ∀ k, (s.write r).wire.countP (fun x => x.order.connection = k) =
      s.written k + if r.order.connection = k then 1 else 0 := by
    intro k
    rw [System.write, countP_append, countP_singleton]
    simp [System.written]
  have hnew : ∀ r' ∈ s.wire, r'.order ≠ r.order := by
    intro r' hr' heq
    have hle := h.numbered r' hr'
    rw [heq, horder] at hle
    exact absurd hle (Nat.not_succ_le_self _)
  have hmem : ∀ {r'}, r' ∈ (s.write r).wire → r' ∈ s.wire ∨ r' = r := by
    intro r' hr'
    simpa [System.write] using hr'
  refine ⟨h.good, fun r' hr' => ?_, fun r1 h1 r2 h2 heq => ?_, fun r' hr' => ?_, fun ha => ?_⟩
  · rw [hcount]
    rcases hmem hr' with hr' | rfl
    · exact (h.numbered r' hr').trans (Nat.le_add_right _ _)
    · rw [horder, if_pos rfl]
      exact le_rfl
  · rcases hmem h1 with hold | hr1
    · rcases hmem h2 with hold' | hr2
      · exact h.distinct r1 hold r2 hold' heq
      · exact absurd (hr2 ▸ heq) (hnew r1 hold)
    · rcases hmem h2 with hold' | hr2
      · exact absurd (hr1 ▸ heq).symm (hnew r2 hold')
      · exact hr1.trans hr2.symm
  · rcases hmem hr' with hr' | rfl
    · exact h.reached r' hr'
    · exact hfence
  · obtain ⟨r', hr', hback⟩ := h.beyond ha
    exact ⟨r', mem_append_left _ hr', hback⟩

variable {w : Worker}

/-- A worker that goes on keeps the exchanges, if what it journals was sent. -/
theorem Exchanges.setWorker (h : Exchanges s.workers s.wire) {instance_ : String} (hw : w.Good)
    (hfollows : (s.workers instance_).Follows w)
    (hnew : ∀ {o v}, (o, .accepted v) ∈ w.answers →
    (o, .accepted v) ∈ (s.workers instance_).answers ∨
      ∃ r ∈ s.wire, r.order = o ∧ r.workerInstanceId = instance_ ∧ ∃ fence,
      r.kind = .forward fence ∧ fence < v) :
    Exchanges (s.setWorker instance_ w).workers (s.setWorker instance_ w).wire := by
  refine ⟨fun x => ?_, h.numbered, h.distinct, fun r hr fence hk => ?_, fun {x o v} ha => ?_⟩
  · rcases eq_or_ne x instance_ with rfl | hne
    · simpa [System.setWorker] using hw
    · simpa [System.setWorker, hne] using h.good x
  · have hreached := h.reached r hr fence hk
    rcases eq_or_ne r.workerInstanceId instance_ with rfl | hne
    · simpa [System.setWorker] using hreached.trans hfollows.revision
    · simpa [System.setWorker, hne] using hreached
  · rcases eq_or_ne x instance_ with rfl | hne
    · have ha : (o, .accepted v) ∈ w.answers := by simpa [System.setWorker] using ha
      exact (hnew ha).elim h.beyond id
    · exact h.beyond (by simpa [System.setWorker, hne] using ha)

theorem Exchanges.handle (h : Exchanges s.workers s.wire) (hr : r ∈ s.wire) {journals : Bool}
    (hw : (s.workers r.workerInstanceId).handle r journals = some w) :
    Exchanges (s.setWorker r.workerInstanceId w).workers
    (s.setWorker r.workerInstanceId w).wire := by
  refine h.setWorker ((h.good _).handle hw) (Worker.follows_handle hw) fun {o v} ha => ?_
  obtain ⟨-, rfl⟩ := Worker.handle_eq_some hw
  rcases mem_append.mp ha with ha | ha
  · exact .inl ha
  · obtain ⟨rfl, hreply⟩ := Prod.mk.inj (mem_singleton.mp ha)
    rcases (s.workers r.workerInstanceId).reply_cases journals r.kind with ⟨⟨fence, hk⟩,
      heq⟩ | heq | heq
    · rw [heq] at hreply
      obtain rfl := Answer.accepted.inj hreply
      exact .inr ⟨r, hr, rfl, rfl, fence, hk, Nat.lt_succ_of_le (h.reached r hr fence hk)⟩
    · rw [heq] at hreply
      cases hreply
    · rw [heq] at hreply
      cases hreply

/-! ### What the daemon knows -/

/-- The request `r`, sent at the fence `fence`, is the one `p` tracks: the one
the worker accepted at its revision, or the one its stamp names. -/
structure StandsFor (s : System) (p : Pending) (r : Request) (fence : ℕ) : Prop where
  mem : r ∈ s.wire
  workerInstanceId : r.workerInstanceId = p.revision.workerInstanceId
  kind : r.kind = .forward fence
  stamp : if p.acknowledged then
      (r.order, .accepted p.revision.revision) ∈ (s.workers p.revision.workerInstanceId).answers
    else p.sent = some r.order

/-- A tracked operation was sent, and one without an answer is held against
the fence it was sent at. -/
def Sound (s : System) (p : Pending) : Prop :=
  ∃ r fence, s.StandsFor p r fence ∧ (p.acknowledged = false → p.revision.revision = fence)

structure Known (s : System) (e : SessionEntry) : Prop where
  fence : ∀ {f}, e.identityFence = some f →
    ∃ o, (o, .snapshot f.revision) ∈ (s.workers f.workerInstanceId).answers
  observed : ∀ {x}, e.identityObserved = some x →
    (x.order, .snapshot x.fence.revision) ∈ (s.workers x.fence.workerInstanceId).answers
  tracked : ∀ p ∈ e.tracked, s.Sound p

/-- A later state: what was sent and answered stays. -/
structure Extends (s t : System) : Prop where
  wire : ∀ {r}, r ∈ s.wire → r ∈ t.wire
  workers : ∀ instance_, (s.workers instance_).Follows (t.workers instance_)

theorem Extends.same (hworkers : t.workers = s.workers) (hwire : t.wire = s.wire) : s.Extends t :=
  ⟨fun hr => hwire ▸ hr, fun _ => hworkers ▸ .refl _⟩

theorem extends_setWorker {instance_ : String} (h : (s.workers instance_).Follows w) :
    s.Extends (s.setWorker instance_ w) := by
  refine ⟨id, fun x => ?_⟩
  rcases eq_or_ne x instance_ with rfl | hne
  · simpa [setWorker] using h
  · simpa [setWorker, hne] using Worker.Follows.refl (s.workers x)

theorem Step.extends (h : s.Step i t) : s.Extends t := by
  cases h.moves with
  | handle _ hw => exact extends_setWorker (Worker.follows_handle hw)
  | hookReport => exact extends_setWorker (Worker.follows_hookReport _)
  | inspect => exact ⟨fun hr => mem_append_left _ hr, fun _ => .refl _⟩
  | send => exact ⟨fun hr => mem_append_left _ hr, fun _ => .refl _⟩
  | _ => exact .same rfl rfl

variable {p : Pending} {fence : ℕ}

theorem StandsFor.mono (h : s.StandsFor p r fence) (hext : s.Extends t) :
    t.StandsFor p r fence where
  mem := hext.wire h.mem
  workerInstanceId := h.workerInstanceId
  kind := h.kind
  stamp := by
    have hstamp := h.stamp
    split
    · rename_i hp
      rw [if_pos hp] at hstamp
      exact (hext.workers _).answers hstamp
    · rename_i hp
      rwa [if_neg hp] at hstamp

theorem Sound.mono (h : s.Sound p) (hext : s.Extends t) : t.Sound p := by
  obtain ⟨r, fence, hr, heq⟩ := h
  exact ⟨r, fence, hr.mono hext, heq⟩

variable {e : SessionEntry}

theorem Known.mono (h : s.Known e) (hext : s.Extends t) : t.Known e where
  fence hf := (h.fence hf).imp fun _ ho => (hext.workers _).answers ho
  observed hx := (hext.workers _).answers (h.observed hx)
  tracked p hp := (h.tracked p hp).mono hext

/-- What is known of a worker is no more than the worker reached. -/
theorem Known.fenceAtSend_le (h : s.Known s.entry) (hx : Exchanges s.workers s.wire)
    (instance_ : String) :
    (s.entry.fenceAtSend instance_).revision ≤ (s.workers instance_).revision := by
  rcases s.entry.fenceAtSend_cases instance_ with h0 | hfence | ⟨p, hp, hack, heq⟩
  · rw [h0]
    exact Nat.zero_le _
  · obtain ⟨o, ho⟩ := h.fence hfence
    exact (hx.good instance_).snapshot_le ho
  · obtain ⟨r, fence, hr, -⟩ := h.tracked p hp
    have hstamp := hr.stamp
    rw [if_pos hack, heq] at hstamp
    exact (hx.good instance_).accepted_le hstamp

variable {o : ExchangeOrder}

theorem known_adopted (new : IdentityFence)
    (h : (o, .snapshot new.revision) ∈ (s.workers new.workerInstanceId).answers) (applied : Bool) :
    s.Known (.adopted new applied) := by
  refine ⟨fun {f} hf => ?_, nofun, nofun⟩
  cases applied with
  | true =>
    cases hf
    exact ⟨o, h⟩
  | false => cases hf

theorem Known.observeIdentity (h : s.Known e) (new : IdentityFence)
    (ho : (o, .snapshot new.revision) ∈ (s.workers new.workerInstanceId).answers) :
    s.Known (e.observeIdentity new o).1 := by
  obtain ⟨observed, heq, hobserved⟩ := e.observeIdentity_fst new o
  rw [heq]
  refine ⟨h.fence, fun {x} hx => ?_, h.tracked⟩
  rcases hobserved with rfl | rfl
  · exact h.observed hx
  · cases hx
    exact ho

theorem Known.attachUnacknowledged (h : s.Known e) (hp : p.acknowledged = false)
    (hsound : s.Sound p) : s.Known (e.attachUnacknowledged p) := by
  obtain ⟨-, hfence, hobserved, -, htracked⟩ := e.attachUnacknowledged_spec hp
  refine ⟨fun hf => h.fence (hfence ▸ hf), fun hx => h.observed (hobserved ▸ hx), fun q hq => ?_⟩
  rcases htracked q hq with rfl | hq
  · exact hsound
  · exact h.tracked q hq

theorem Known.noteForwarded (h : s.Known e) (hsound : s.Sound p) :
    s.Known (e.noteForwarded p) := by
  obtain ⟨hfence, hobserved, htracked⟩ := e.noteForwarded_spec p
  refine ⟨fun hf => h.fence (hfence ▸ hf), fun hx => h.observed (hobserved ▸ hx), fun q hq => ?_⟩
  rcases htracked q hq with rfl | hq
  · exact hsound
  · exact h.tracked q hq

theorem Known.settlePendingActivity (h : s.Known e) : s.Known e.settlePendingActivity where
  fence := h.fence
  observed := h.observed
  tracked p hp := h.tracked p (e.settlePendingActivity_tracked p hp)

theorem Known.applySnapshot (h : s.Known e) (new : IdentityFence)
    (ho : (o, .snapshot new.revision) ∈ (s.workers new.workerInstanceId).answers) (accepted : Bool)
    (ended : Option ClaimKey) : s.Known (e.applySnapshot new accepted ended) := by
  obtain ⟨hfence, hobserved, htracked⟩ := e.applySnapshot_spec new accepted ended
  refine ⟨fun {f} hf => ?_, fun hx => h.observed (hobserved ▸ hx),
    fun p hp => h.tracked p (htracked p hp)⟩
  rcases hfence with heq | heq
  · exact h.fence (heq ▸ hf)
  · cases heq.symm.trans hf
    exact ⟨o, ho⟩

/-! ### The guard -/

/-- What the holder of the entry's guard may rely on. From the moment a forward
reads the fence until it gives up on its answer, the fence stays. -/
def Holds (s : System) : Holder → Prop
  | .forward op (.ready before) => before = s.entry.fenceAtSend op.workerInstanceId
  | .forward op (.sent before order) => before = s.entry.fenceAtSend op.workerInstanceId ∧
      ⟨op.workerInstanceId, order, .forward before.revision⟩ ∈ s.wire
  | .forward _ (.unacknowledged p) => p.acknowledged = false ∧ s.Sound p
  | .forward _ .holding | .forward _ .accepted | .sync => True

variable {h : Holder}

theorem Holds.mono (hh : s.Holds h) (hext : s.Extends t)
    (hfence : ∀ instance_, t.entry.fenceAtSend instance_ = s.entry.fenceAtSend instance_) :
    t.Holds h := by
  cases h with
  | sync => trivial
  | forward op phase =>
    cases phase with
    | holding => trivial
    | accepted => trivial
    | ready before => exact Eq.trans hh (hfence _).symm
    | sent before order => exact ⟨hh.1.trans (hfence _).symm, hext.wire hh.2⟩
    | unacknowledged p => exact ⟨hh.1, hh.2.mono hext⟩

theorem holds_of_commits (hc : h.commits) : s.Holds h := by
  cases h with
  | sync => trivial
  | forward op phase =>
    cases phase with
    | accepted => trivial
    | _ => cases hc

/-- The invariant: everything the daemon keeps was sent or seen, and whoever
holds or awaits a guard holds or awaits the guard of the entry. -/
structure Good (s : System) : Prop where
  exchanges : Exchanges s.workers s.wire
  entry : s.Known s.entry
  clones : ∀ c ∈ s.clones, s.Known c.2
  loose : ∀ p ∈ s.loose, p.acknowledged = false ∧ s.Sound p
  holders : ∀ {g h}, s.guards g = some h → g = s.incarnation ∧ s.Holds h
  waiting : ∀ w ∈ s.waiting, w.1 = s.incarnation ∧ ∀ t : System, t.Holds w.2

theorem initial_good (revisions : String → ℕ) (instance_ : Option String) :
    (initial revisions instance_).Good where
  exchanges := ⟨fun _ => ⟨nofun, nofun, nofun, nofun, nofun⟩, nofun, nofun, nofun, nofun⟩
  entry := ⟨nofun, nofun, nofun⟩
  clones := nofun
  loose := nofun
  holders := nofun
  waiting := nofun

/-- A step that leaves the fence and lets nobody but the entry's holder move. -/
structure Kept (s t : System) : Prop where
  incarnation : t.incarnation = s.incarnation := by rfl
  fence : ∀ instance_, t.entry.fenceAtSend instance_ = s.entry.fenceAtSend instance_ := by
    exact fun _ => rfl
  clones : ∀ c ∈ t.clones, c ∈ s.clones ∨ c.2 = s.entry := by exact fun _ => .inl
  loose : ∀ p ∈ t.loose, p ∈ s.loose ∨ p.acknowledged = false ∧ s.Sound p := by exact fun _ => .inl
  guards : ∀ {g h}, t.guards g = some h → s.guards g = some h ∨ g = s.incarnation ∧
    t.Holds h := by exact .inl
  waiting : ∀ w ∈ t.waiting, w ∈ s.waiting ∨ w.1 = s.incarnation ∧ ∀ t : System, t.Holds w.2 := by
    exact fun _ => .inl

theorem Good.keep (hs : s.Good) (hext : s.Extends t) (hx : Exchanges t.workers t.wire)
    (hentry : t.Known t.entry) (hkept : Kept s t) : t.Good where
  exchanges := hx
  entry := hentry
  clones c hc := by
    rcases hkept.clones c hc with hc | heq
    · exact (hs.clones c hc).mono hext
    · exact heq ▸ hs.entry.mono hext
  loose p hp := by
    rcases hkept.loose p hp with hp | ⟨hack, hsound⟩
    · exact ⟨(hs.loose p hp).1, (hs.loose p hp).2.mono hext⟩
    · exact ⟨hack, hsound.mono hext⟩
  holders hg := by
    rw [hkept.incarnation]
    rcases hkept.guards hg with hg | hh
    · exact ⟨(hs.holders hg).1, (hs.holders hg).2.mono hext hkept.fence⟩
    · exact hh
  waiting w hw := by
    rw [hkept.incarnation]
    exact (hkept.waiting w hw).elim (hs.waiting w) id

/-- A holder that commits may move the fence: nobody else holds a guard. -/
theorem Good.commit (hs : s.Good) {g : ℕ} (hg : s.guards g = some h) (hc : h.commits)
    (he : s.Known e) : { s with entry := e }.Good where
  exchanges := hs.exchanges
  entry := he.mono (.same rfl rfl)
  clones c hc := (hs.clones c hc).mono (.same rfl rfl)
  loose p hp := ⟨(hs.loose p hp).1, (hs.loose p hp).2.mono (.same rfl rfl)⟩
  holders {g' h'} hg' := by
    have hsame : g' = g := (hs.holders hg').1.trans (hs.holders hg).1.symm
    rw [hsame] at hg'
    cases hg.symm.trans hg'
    exact ⟨(hs.holders hg').1.symm ▸ hsame, holds_of_commits hc⟩
  waiting := hs.waiting

/-- The entry is replaced while nobody holds or awaits its guard. -/
theorem Good.replace (hs : s.Good) (hidle : s.Idle) (he : s.Known e)
    (incarnation incarnations : ℕ) :
    { s with entry := e, incarnation := incarnation, incarnations := incarnations }.Good where
  exchanges := hs.exchanges
  entry := he.mono (.same rfl rfl)
  clones c hc := (hs.clones c hc).mono (.same rfl rfl)
  loose p hp := ⟨(hs.loose p hp).1, (hs.loose p hp).2.mono (.same rfl rfl)⟩
  holders {g h} hg := by
    have heq := (hs.holders hg).1
    rw [heq, hidle.2] at hg
    cases hg
  waiting w hw := by
    have hnone : w ∈ s.waiting := hw
    rw [hidle.1] at hnone
    cases hnone

theorem setGuard_some {g g' : ℕ} {h : Option Holder} {h' : Holder}
    (hg : (s.setGuard g h).guards g' = some h') : g' = g ∧ h = some h' ∨ s.guards g' = some h' := by
  rcases eq_or_ne g' g with rfl | hne
  · exact .inl ⟨rfl, by simpa [setGuard] using hg⟩
  · exact .inr (by simpa [setGuard, hne] using hg)

theorem guards_of_release {g g' : ℕ} (hg : (s.setGuard g none).guards g' = some h) :
    s.guards g' = some h :=
  (setGuard_some hg).resolve_left fun hnone => nomatch hnone.2

/-- The guard is let go, or its holder goes on to `h`; the entry stays. -/
theorem Good.setGuard (hs : s.Good) {g : ℕ} {h : Option Holder}
    (hh : ∀ h', h = some h' → g = s.incarnation ∧ s.Holds h') : (s.setGuard g h).Good := by
  refine hs.keep (.same rfl rfl) hs.exchanges
    (hs.entry.mono (.same rfl rfl)) { guards := fun {g' h'} hg => ?_ }
  rcases setGuard_some hg with ⟨rfl, heq⟩ | hold
  · obtain ⟨hg, hholds⟩ := hh h' heq
    exact .inr ⟨hg, hholds.mono (.same rfl rfl) fun _ => rfl⟩
  · exact .inl hold

theorem Good.step (hs : s.Good) (hstep : s.QuietStep i t) : t.Good := by
  have hext : s.Extends t := hstep.1.extends
  cases hstep.1.moves with
  | connect => exact hs.keep hext hs.exchanges (hs.entry.mono hext) {}
  | inspect => exact hs.keep hext (hs.exchanges.write rfl nofun) (hs.entry.mono hext) {}
  | handle hr hw => exact hs.keep hext (hs.exchanges.handle hr hw) (hs.entry.mono hext) {}
  | hookReport =>
    refine hs.keep hext ?_ (hs.entry.mono hext) {}
    exact hs.exchanges.setWorker (hs.exchanges.good _).hookReport (Worker.follows_hookReport _) .inl
  | @observe instance_ order v ho =>
    have hentry := hs.entry.observeIdentity ⟨instance_, v⟩ ho
    refine hs.keep hext hs.exchanges (hentry.mono hext) { fence := fun x => ?_ }
    obtain ⟨observed, heq, -⟩ := s.entry.observeIdentity_fst ⟨instance_, v⟩ order
    rw [heq]
    refine SessionEntry.fenceAtSend_congr ?_ ?_ x <;> rfl
  | queue hholder =>
    refine hs.keep hext hs.exchanges (hs.entry.mono hext) { waiting := fun w hw => ?_ }
    rcases mem_append.mp hw with hw | hw
    · exact .inl hw
    · obtain rfl := mem_singleton.mp hw
      refine .inr ⟨rfl, fun t => ?_⟩
      rcases hholder with rfl | ⟨op, rfl⟩ <;> trivial
  | acquire hw hfree =>
    refine hs.keep hext hs.exchanges (hs.entry.mono hext)
      { guards := fun {g' h'} hg => ?_, waiting := fun w hw => .inl (mem_of_mem_eraseIdx hw) }
    rcases setGuard_some hg with ⟨rfl, heq⟩ | hold
    · cases heq
      exact .inr ⟨(hs.waiting _ hw).1, (hs.waiting _ hw).2 _⟩
    · exact .inl hold
  | prepare hg =>
    refine hs.setGuard fun h' heq => ?_
    cases heq
    exact ⟨(hs.holders hg).1, rfl⟩
  | @send g op before hg =>
    obtain ⟨hcurrent, hbefore⟩ := hs.holders hg
    refine hs.keep hext (hs.exchanges.write rfl fun fence hk => ?_)
      (hs.entry.mono hext) { guards := fun {g' h'} hg' => ?_ }
    · obtain rfl := RequestKind.forward.inj hk
      exact hs.entry.fenceAtSend_le hs.exchanges _
    · rcases setGuard_some hg' with ⟨rfl, heq⟩ | hold
      · cases heq
        refine .inr ⟨hcurrent, hbefore, ?_⟩
        rw [show before = s.entry.fenceAtSend op.workerInstanceId from hbefore]
        exact mem_append_right _ mem_cons_self
      · exact .inl hold
  | @accept g op before order v hg ha =>
    obtain ⟨hcurrent, hbefore, hmem⟩ := hs.holders hg
    have hsound : s.Sound (op.pending ⟨op.workerInstanceId, v⟩ true none) :=
      ⟨_, before.revision, ⟨hmem, rfl, rfl, ha⟩, nofun⟩
    have hgood := hs.setGuard (g := g) (h := some (.forward op .accepted)) fun h' heq => by
      cases heq
      exact ⟨hcurrent, trivial⟩
    exact hgood.commit (g := g) (h := .forward op .accepted) (by simp [System.setGuard]) rfl
      ((hs.entry.noteForwarded hsound).mono (.same rfl rfl))
  | refuse => exact hs.setGuard nofun
  | lose hg =>
    obtain ⟨hcurrent, hbefore, hmem⟩ := hs.holders hg
    refine hs.setGuard fun h' heq => ?_
    cases heq
    -- The guard was held all along, so the fence read now is the one at the send.
    exact ⟨hcurrent, rfl, _, _, ⟨hmem, rfl, rfl, rfl⟩, fun _ => by rw [hbefore]; rfl⟩
  | attach hg =>
    obtain ⟨hcurrent, hack, hsound⟩ := hs.holders hg
    obtain ⟨-, hfence, -, haccepted, -⟩ := s.entry.attachUnacknowledged_spec hack
    exact hs.keep hext hs.exchanges ((hs.entry.attachUnacknowledged hack hsound).mono hext)
      { fence := SessionEntry.fenceAtSend_congr hfence haccepted,
        guards := fun hg' => .inl (guards_of_release hg') }
  | fail hg =>
    obtain ⟨hcurrent, hbefore, hmem⟩ := hs.holders hg
    refine hs.keep hext hs.exchanges (hs.entry.mono hext)
      { loose := fun p hp => ?_, guards := fun hg' => .inl (guards_of_release hg') }
    rcases mem_append.mp hp with hp | hp
    · exact .inl hp
    · obtain rfl := mem_singleton.mp hp
      refine .inr ⟨rfl, _, _, ⟨hmem, ?_, rfl, rfl⟩, fun _ => rfl⟩
      rw [hbefore]
      rfl
  | attachLoose hp =>
    obtain ⟨hack, hsound⟩ := hs.loose _ hp
    obtain ⟨-, hfence, -, haccepted, -⟩ := s.entry.attachUnacknowledged_spec hack
    exact hs.keep hext hs.exchanges ((hs.entry.attachUnacknowledged hack hsound).mono hext)
      { fence := SessionEntry.fenceAtSend_congr hfence haccepted,
        loose := fun q hq => .inl (mem_of_mem_eraseIdx hq) }
  | @apply g h instance_ order v accepted ended hg hc ho =>
    exact hs.commit hg hc (hs.entry.applySnapshot ⟨instance_, v⟩ ho accepted ended)
  | settle hg hc => exact hs.commit hg hc hs.entry.settlePendingActivity
  | release => exact hs.setGuard nofun
  | @adopt instance_ order v applied ho =>
    exact hs.replace (hstep.2 rfl) (known_adopted ⟨instance_, v⟩ ho applied) _ _
  | clone =>
    refine hs.keep hext hs.exchanges (hs.entry.mono hext) { clones := fun c hc => ?_ }
    rcases mem_append.mp hc with hc | hc
    · exact .inl hc
    · exact .inr (by rw [mem_singleton.mp hc])
  | install hc => exact hs.replace (hstep.2 rfl) (hs.clones _ hc) _ _

variable {tr : List Input}

theorem good_of_run {revisions : String → ℕ} {instance_ : Option String}
    (h : Run QuietStep (initial revisions instance_) tr s) : s.Good :=
  h.invariant (initial_good revisions instance_) fun hs hstep => hs.step hstep

/-! ### The verdicts -/

/-- A request that is behind stays without another answer. -/
theorem answered_of_past {instance_ : String} (hrun : Run Step s tr t)
    (hpast : (s.workers instance_).Past o) {a : Answer}
    (ha : (o, a) ∈ (t.workers instance_).answers) : (o, a) ∈ (s.workers instance_).answers := by
  have hkept := hrun.invariant (I := fun t => (t.workers instance_).Past o ∧
      ((o, a) ∈ (t.workers instance_).answers → (o, a) ∈ (s.workers instance_).answers)) ⟨hpast, id⟩
    (fun {t l u} ht hstep => by
      have hfollows := hstep.extends.workers instance_
      exact ⟨hfollows.past ht.1, fun hu => ht.2 (hfollows.late ht.1 hu)⟩)
  exact hkept.2 ha

/-- An operation is tracked by one request. -/
theorem StandsFor.unique (hs : s.Good) {r' : Request} {fence fence' : ℕ} (h : s.StandsFor p r fence)
    (h' : s.StandsFor p r' fence') : r = r' := by
  have hstamp := h.stamp
  have hstamp' := h'.stamp
  refine hs.exchanges.distinct r h.mem r' h'.mem ?_
  split at hstamp
  · rename_i hack
    rw [if_pos hack] at hstamp'
    exact (hs.exchanges.good _).unique hstamp hstamp'
  · rename_i hack
    rw [if_neg hack] at hstamp'
    exact some.inj (hstamp.symm.trans hstamp')

/-- What the verdict on an operation proves about the request `r` it tracks,
sent at the fence `fence`: a rejected one is not journaled, now or later; a
settled one was passed by a revision the worker showed. -/
structure Judged (s : System) (p : Pending) (r : Request) (fence : ℕ) : Prop where
  rejected : s.entry.verdict p = .rejected → ∀ {tr t}, Run Step s tr t →
    ∀ v, (r.order, .accepted v) ∉ (t.workers r.workerInstanceId).answers
  settled : s.entry.verdict p = .settled → ∃ held o, s.entry.identityFence = some held ∧
    held.workerInstanceId = r.workerInstanceId ∧
    (o, .snapshot held.revision) ∈ (s.workers r.workerInstanceId).answers ∧ fence < held.revision

theorem Good.rejected_not_journaled (hs : s.Good) (hverdict : s.entry.verdict p = .rejected)
    (hr : s.StandsFor p r fence) (hheld : p.acknowledged = false → p.revision.revision = fence)
    (hrun : Run Step s tr t) (v : ℕ) :
    (r.order, .accepted v) ∉ (t.workers r.workerInstanceId).answers := by
  intro ha
  obtain ⟨hack, order, seen, hsent, hseen, hinstance, hlt, hrevision⟩ :=
    revisionState_eq_rejected hverdict
  have hstamp := hr.stamp
  rw [if_neg (by simp [hack])] at hstamp
  obtain rfl : r.order = order := some.inj (hstamp.symm.trans hsent)
  have hw : seen.fence.workerInstanceId = r.workerInstanceId :=
    hinstance.trans hr.workerInstanceId.symm
  have hsnapshot := hs.entry.observed hseen
  rw [hw] at hsnapshot
  -- The snapshot was answered later, so the request is behind.
  have hpast : (s.workers r.workerInstanceId).Past r.order := by
    obtain ⟨h, hh, rfl | hlater⟩ := (hs.exchanges.good _).past hsnapshot
    · exact ⟨_, hh, .inr hlt⟩
    · exact ⟨_, hh, .inr (lt_trans hlt hlater)⟩
  have hjournaled := answered_of_past hrun hpast ha
  have hle := (hs.exchanges.good _).later hjournaled hsnapshot hlt
  obtain ⟨r', hr', horder, -, fence', hk, hbeyond⟩ := hs.exchanges.beyond hjournaled
  obtain rfl := hs.exchanges.distinct r' hr' r hr.mem horder
  obtain rfl := RequestKind.forward.inj (hk.symm.trans hr.kind)
  have hfence := hheld hack
  omega

theorem Good.settled_passed (hs : s.Good) (hverdict : s.entry.verdict p = .settled)
    (hr : s.StandsFor p r fence) (hheld : p.acknowledged = false → p.revision.revision = fence) :
    ∃ held o, s.entry.identityFence = some held ∧ held.workerInstanceId = r.workerInstanceId ∧
      (o, .snapshot held.revision) ∈ (s.workers r.workerInstanceId).answers ∧
      fence < held.revision := by
  obtain ⟨held, hfence, hinstance, hpassed⟩ := revisionState_eq_settled hverdict
  have hw : held.workerInstanceId = r.workerInstanceId := hinstance.trans hr.workerInstanceId.symm
  obtain ⟨o, ho⟩ := hs.entry.fence hfence
  refine ⟨held, o, hfence, hw, hw ▸ ho, ?_⟩
  have hstamp := hr.stamp
  split at hpassed
  · -- The worker answered with a revision, which is beyond the fence.
    rename_i hack
    rw [if_pos hack] at hstamp
    obtain ⟨r', hr', horder, -, fence', hk, hbeyond⟩ := hs.exchanges.beyond hstamp
    obtain rfl := hs.exchanges.distinct r' hr' r hr.mem horder
    obtain rfl := RequestKind.forward.inj (hk.symm.trans hr.kind)
    omega
  · rename_i hack
    have hfence := hheld (by simpa using hack)
    omega

/-- **The verdicts are sound** in every run in which the entry is replaced only
while no identity operation of the session is under way. -/
theorem settlement_sound {revisions : String → ℕ} {instance_ : Option String} {tr : List Input}
    (hrun : Run QuietStep (initial revisions instance_) tr s) {p : Pending}
    (hp : p ∈ s.entry.tracked) :
    ∃ r fence, s.StandsFor p r fence ∧ (∀ r' fence', s.StandsFor p r' fence' → r' = r) ∧
    s.Judged p r fence := by
  have hs := good_of_run hrun
  obtain ⟨r, fence, hr, hheld⟩ := hs.entry.tracked p hp
  exact ⟨r, fence, hr, fun r' fence' hr' => hr'.unique hs hr,
    fun hverdict _ _ hrun' v => hs.rejected_not_journaled hverdict hr hheld hrun' v,
    fun hverdict => hs.settled_passed hverdict hr hheld⟩

theorem quiet_of_guarded
    (h : Runs.guarded step (fun s i => !i.replaces || decide s.Idle) s i = some t) :
    s.QuietStep i t := by
  obtain ⟨hstep, hquiet⟩ := Runs.guarded_eq_some h
  exact ⟨hstep, fun hreplaces => by simpa [hreplaces] using hquiet⟩

/-! A report the worker refused, adopted from a snapshot before and observed
after it. -/

def sampleReport : Forward where
  operation := .report
  key := ⟨"codex", 7, 70, 1⟩
  workerInstanceId := "w"
  connection := 0

def refusedInputs : List Input :=
  [.connect "w", .inspect 0, .handle 0 false, .adopt "w" ⟨1, 1⟩ true, .queue (some sampleReport),
    .acquire 0,
    .prepare 1, .send 1, .handle 1 false, .lose 1, .attach 1, .inspect 0, .handle 2 false,
    .observe "w" ⟨1, 3⟩]

/-- A run with a rejected operation, which the worker never journals. -/
theorem settlement_sound_refused :
    ∃ s : System, Run QuietStep (initial (fun _ => 4) none) refusedInputs s ∧
    ∃ p ∈ s.entry.tracked, s.entry.verdict p = .rejected ∧ ∃ r fence, s.StandsFor p r fence ∧
      ∀ {tr t}, Run Step s tr t → ∀ v,
      (r.order, .accepted v) ∉ (t.workers r.workerInstanceId).answers := by
  have hexec : ((Runs.steps (Runs.guarded step fun s i => !i.replaces || decide s.Idle)
    (initial (fun _ => 4) none) refusedInputs).any fun s =>
      s.entry.tracked.any fun p => s.entry.verdict p = .rejected) = true := by decide +kernel
  obtain ⟨s, hrun, hany⟩ := Runs.steps_any hexec
  obtain ⟨p, hp, hverdict⟩ := any_eq_true.mp hany
  have hquiet : Run QuietStep (initial (fun _ => 4) none) refusedInputs s :=
    hrun.mono quiet_of_guarded
  obtain ⟨r, fence, hr, -, hjudged⟩ := settlement_sound hquiet hp
  exact ⟨s, hquiet, p, hp, of_decide_eq_true hverdict, r, fence, hr,
    hjudged.rejected (of_decide_eq_true hverdict)⟩

/-- The same report, journaled; its answer is lost with the connection, and the
session is adopted anew before the daemon reads the fence again. -/
def adoptedMeanwhileInputs : List Input :=
  [.connect "w", .inspect 0, .handle 0 false, .adopt "w" ⟨1, 1⟩ true, .queue (some sampleReport),
    .acquire 0, .prepare 1, .send 1, .handle 1 true, .connect "w", .inspect 1, .handle 2 false,
    .adopt "w" ⟨2, 1⟩ true, .lose 1, .attach 1, .inspect 1, .handle 3 false, .observe "w" ⟨2, 2⟩]

/-- **Without that condition a journaled operation is judged rejected**: the
fence read after the adoption already counts the operation itself. -/
theorem journaled_operation_rejected :
    ∃ s : System, Run Step (initial (fun _ => 4) none) adoptedMeanwhileInputs s ∧
    ∃ p ∈ s.entry.tracked, s.entry.verdict p = .rejected ∧ ∃ r fence, s.StandsFor p r fence ∧
      ∃ v, (r.order, .accepted v) ∈ (s.workers r.workerInstanceId).answers := by
  have hexec : ((Runs.steps step (initial (fun _ => 4) none) adoptedMeanwhileInputs).any fun s =>
      s.entry.tracked.any fun p => s.entry.verdict p = .rejected && !p.acknowledged &&
        p.revision.workerInstanceId = "w" && p.sent = some ⟨1, 2⟩ &&
        ⟨"w", ⟨1, 2⟩, .forward 4⟩ ∈ s.wire && (⟨1, 2⟩, .accepted 5) ∈
        (s.workers "w").answers) = true := by
    decide +kernel
  obtain ⟨s, hrun, hany⟩ := Runs.steps_any hexec
  obtain ⟨p, hp, hchecks⟩ := any_eq_true.mp hany
  simp only [Bool.and_eq_true, decide_eq_true_eq, Bool.not_eq_true'] at hchecks
  obtain ⟨⟨⟨⟨⟨hverdict, hack⟩, hinstance⟩, hsent⟩, hwire⟩, haccepted⟩ := hchecks
  refine ⟨s, hrun, p, hp, hverdict, ⟨"w", ⟨1, 2⟩, .forward 4⟩, 4, ⟨hwire, hinstance.symm, rfl, ?_⟩,
    5, haccepted⟩
  rw [if_neg (by simp [hack])]
  exact hsent

end System

end Pohunek.Identity
