/-
# The memo, the memoised lines and the file agree

Whatever a predicate on file contents and one on snapshots keep of each other
(`Keeps`), every reachable state of a handle has (`System.Good`). The trace of
a call says what it read, and that is what its snapshot was decoded from
(`Tracks`). With snapshots that are the decode of their content this is
coherence: a call sees the records and rejected lines of a content the file
had during the call, and a rewrite has the bytes of serialising the records it
read with its change, whatever lines it reused.

It needs that no rejected line ends in a carriage return. A rewrite ends each
line in a line feed, so a return at the end of the text belongs to the
terminator when the file is read again, while the memo still has it.
-/
import Pohunek.Metadata.Handle
import Pohunek.Metadata.Table

namespace Pohunek.Metadata

open Fallible Interleave LineLog Runs Records List Function Watch

variable {S : Serde}

/-! ### What is kept of contents and snapshots -/

/-- Contents with `P` decode to snapshots with `V`, and rewrites from these
have `P` and are remembered with `V`. -/
structure Keeps (S : Serde) (P : Text → Prop) (V : Snapshot → Prop) : Prop where
  empty : V .empty
  decoded : ∀ {content stored rejected}, P content → decode S content = .ok (stored, rejected) →
    V ⟨content, .fromStoreRecords stored, rejected⟩
  mutated : ∀ {snapshot : Snapshot} {mutation : Mutation} {records answer body written},
    V snapshot → mutation.plan snapshot.records = .rewrite records answer →
    emit S records (snapshot.rejected.map (·.text)) = .ok (body, written) →
    P body ∧ ∀ next, remember S body written snapshot.rejected = some next → V next
  setAside : ∀ {contentHash acceptPinLoss content records kept body written}, P content →
    setAside S contentHash acceptPinLoss (some content) = .ok (records, kept) →
    emit S records (kept.map (·.text)) = .ok (body, written) → P body

section Good

variable (P : Text → Prop) (V : Snapshot → Prop)

def Memo.All (memo : Memo) : Prop := ∀ id snapshot, memo = some (id, snapshot) → V snapshot

def Phase.Good (S : Serde) : Phase → Prop
  | .idle | .started _ => True
  | .cloned _ remembered => Memo.All V remembered
  | .fetched _ remembered content => Memo.All V remembered ∧ ∀ text, content = some text → P text
  | .loaded _ snapshot => V snapshot
  | .committed body records rejected _ _ => ∀ next,
    remember S body records rejected = some next → V next

structure Shared.Good (shared : Shared) : Prop where
  file : ∀ text, shared.file = some text → P text
  memo : Memo.All V shared.memo

/-- Every content and every snapshot in the system has its predicate. -/
structure System.Good (S : Serde) (s : System) : Prop where
  shared : s.shared.Good P V
  phases : ∀ thread, (s.phases thread).Good P V S

end Good

section Keeps

variable {P : Text → Prop} {V : Snapshot → Prop} (hkeeps : Keeps S P V)
include hkeeps

variable {shared shared' : Shared}

theorem snapshotOf_good {remembered : Memo} {content : Option Text} {snapshot : Snapshot}
    (h : snapshotOf S shared remembered content = .ok (snapshot, shared'))
    (hshared : shared.Good P V) (hremembered : Memo.All V remembered)
    (hcontent : ∀ text, content = some text → P text) : V snapshot ∧ shared'.Good P V := by
  obtain ⟨hfile, hmemo, hsource⟩ := snapshotOf_ok h
  have hsnapshot : V snapshot := by
    rcases hsource with ⟨-, rfl⟩ | ⟨id, hid, -⟩ | ⟨text, stored, rejected, htext, hdecode, rfl⟩
    · exact hkeeps.empty
    · exact hremembered id snapshot hid
    · exact hkeeps.decoded (hcontent text htext) hdecode
  refine ⟨hsnapshot, by rw [hfile]; exact hshared.file, ?_⟩
  rcases hmemo with hmemo | ⟨id, hmemo⟩
  · rw [hmemo]
    exact hshared.memo
  · rw [hmemo]
    rintro _ _ ⟨rfl, rfl⟩
    exact hsnapshot

theorem Advances.good {phase phase' : Phase} {action : Action} {output : Output}
    (h : Advances S shared phase action phase' shared' output) (hshared : shared.Good P V)
    (hphase : phase.Good P V S) : phase'.Good P V S ∧ shared'.Good P V := by
  cases h with
  | start | stop => exact ⟨trivial, hshared⟩
  | clone => exact ⟨hshared.memo, hshared⟩
  | read call remembered _ hfrom =>
    refine ⟨⟨?_, hshared.file⟩, hshared⟩
    rcases hfrom with rfl | ⟨rfl, rfl⟩
    · exact hphase
    · exact nofun
  | load call remembered content _ snapshot _ hsnapshot hto =>
    obtain ⟨hV, hgood⟩ := snapshotOf_good hkeeps hsnapshot hshared hphase.1 hphase.2
    rcases hto with ⟨-, rfl⟩ | ⟨mutation, -, rfl⟩
    · exact ⟨trivial, hgood⟩
    · exact ⟨hV, hgood⟩
  | write mutation snapshot _ _ records written answer body synced hplan hemit =>
    obtain ⟨hbody, hnext⟩ := hkeeps.mutated hphase hplan hemit
    refine ⟨hnext, ?_, hshared.memo⟩
    rintro _ ⟨rfl⟩
    exact hbody
  | setAside contentHash acceptPinLoss remembered content _ _ records written kept body hkept hemit =>
    refine ⟨trivial, ?_, hshared.memo⟩
    rintro _ ⟨rfl⟩
    cases content with
    | none => cases hkept
    | some text => exact hkeeps.setAside (hphase.2 text rfl) hkept hemit
  | remember body records rejected answer synced =>
    refine ⟨trivial, hshared.file, ?_⟩
    intro id snapshot hmemo
    obtain ⟨next, hnext, heq⟩ := Option.map_eq_some_iff.mp hmemo
    obtain ⟨-, rfl⟩ := Prod.mk.inj heq
    exact hphase next hnext

theorem Moves.good {s t : System} {event : Event} (h : Moves S s event t) (hgood : s.Good P V S)
    (hreplaced : ∀ text, event.call = .replace (some text) → P text) : t.Good P V S := by
  cases h with
  | act actor action output phase shared writeLock hadvances hlock =>
    obtain ⟨hphase, hshared⟩ := hadvances.good hkeeps hgood.shared (hgood.phases actor)
    refine ⟨hshared, fun thread => ?_⟩
    by_cases hactor : thread = actor
    · subst hactor
      simpa using hphase
    · simpa [update_of_ne hactor] using hgood.phases thread
  | replace content =>
    refine ⟨⟨?_, hgood.shared.memo⟩, hgood.phases⟩
    rintro text rfl
    exact hreplaced text rfl

/-- **Runs keep what contents and snapshots have.** -/
theorem good_of_run {file : Option Text} {trace : List Event} {s : System}
    (hfile : ∀ text, file = some text → P text) (hrun : Run (StepOf (step S)) (.init file) trace s)
    (hreplaced : ∀ event ∈ trace, ∀ text, event.call = .replace (some text) → P text) :
    s.Good P V S := by
  refine hrun.history ?_ ?_ hreplaced
  · exact fun _ => ⟨⟨hfile, nofun⟩, fun _ => trivial⟩
  · intro trace s event t _ ih hstep hall
    obtain ⟨hbefore, hevent⟩ := forall_mem_append.mp hall
    exact (StepOf.moves hstep).good hkeeps (ih hbefore) (hevent event (mem_singleton.mpr rfl))

end Keeps

/-! ### The trace and the state -/

/-- The snapshot of a content that was read. -/
def Of (content : Option Text) (snapshot : Snapshot) : Prop :=
  content = none ∧ snapshot = .empty ∨ content = some snapshot.content

def Phase.Tracks (w : Watch) : Phase → Prop
  | .fetched _ _ content => w.fetched = content ∧ content ∈ w.since
  | .loaded _ snapshot => Of w.fetched snapshot ∧ w.fetched ∈ w.since
  | _ => True

/-- What the trace shows of a thread's call is what the thread has. While the
thread has the write lock and has not written, only other processes change
the file. -/
structure Tracks (thread : ℕ) (w : Watch) (s : System) : Prop where
  file : w.file = s.shared.file
  current : w.file ∈ w.since
  call : s.phases thread ≠ .idle → w.call.any Call.locks = (s.phases thread).guarded
  phase : (s.phases thread).Tracks w
  own : w.foreign = false → (s.phases thread).guarded → (s.phases thread).Pending →
    ∀ content ∈ w.since, content = w.file

/-- The write lock is held by the thread that has its guard. -/
def System.Locked (s : System) : Prop := Exact s.writeLock fun thread => (s.phases thread).guarded

variable {s : System}

theorem Moves.locked {t : System} {event : Event} (h : Moves S s event t) (hlocked : s.Locked) :
    t.Locked := by
  cases h with
  | act actor action output phase shared writeLock hadvances hlock =>
    have hmove : relock s.writeLock actor (s.phases actor).guarded
        (update s.phases actor phase actor).guarded = some writeLock := by
      simpa using hlock
    refine hlocked.relock hmove fun thread hthread => ?_
    simp [update_of_ne hthread]
  | replace content => exact hlocked

variable {shared : Shared} {phase : Phase} {action : Action} {output : Output}

theorem Advances.effect {shared' : Shared} {phase' : Phase}
    (h : Advances S shared phase action phase' shared' output) :
    output.body = none ∧ shared'.file = shared.file ∨
      ∃ body, output.body = some body ∧ shared'.file = some body ∧ phase.guarded := by
  cases h with
  | start | clone | read | remember => exact .inl ⟨rfl, rfl⟩
  | stop _ _ _ _ _ houtput =>
    rcases houtput with ⟨error, rfl⟩ | ⟨-, answer, rfl⟩ <;> exact .inl ⟨rfl, rfl⟩
  | load _ _ _ _ _ _ hsnapshot => exact .inl ⟨rfl, (snapshotOf_ok hsnapshot).1⟩
  | write => exact .inr ⟨_, rfl, rfl, rfl⟩
  | setAside => exact .inr ⟨_, rfl, rfl, rfl⟩

theorem Watch.act_of_mayFail (h : action.MayFail) (w : Watch) : w.act action = w := by
  rcases h with ⟨message, rfl⟩ | rfl | ⟨quarantine, replacement, rfl⟩ <;> rfl

variable {w : Watch}

theorem Phase.Tracks.put (h : phase.Tracks w) (content : Option Text) :
    phase.Tracks (w.put content) := by
  cases phase with
  | fetched call remembered text => exact ⟨h.1, mem_append_left _ h.2⟩
  | loaded mutation snapshot => exact ⟨h.1, mem_append_left _ h.2⟩
  | idle | started | cloned | committed => trivial

variable {content : Option Text}

theorem of_snapshotOf {shared' : Shared} {remembered : Memo} {snapshot : Snapshot}
    (h : snapshotOf S shared remembered content = .ok (snapshot, shared')) :
    Of content snapshot := by
  rcases (snapshotOf_ok h).2.2 with ⟨rfl, rfl⟩ | ⟨-, -, hcontent⟩ | ⟨text, stored, rejected,
    rfl, -, rfl⟩
  · exact .inl ⟨rfl, rfl⟩
  · exact .inr hcontent
  · exact .inr rfl

/-- Another thread's step. -/
theorem Tracks.other {thread actor : ℕ} {writeLock : Option ℕ} (h : Tracks thread w s)
    (hlocked : s.Locked) (hactor : thread ≠ actor)
    (hadvances : Advances S s.shared (s.phases actor) action phase shared output) :
    Tracks thread (w.after thread ⟨.act actor action, output⟩)
      ⟨shared, writeLock, update s.phases actor phase⟩ := by
  have hsame : update s.phases actor phase thread = s.phases thread := update_of_ne hactor ..
  rcases hadvances.effect with ⟨hbody, hfile⟩ | ⟨body, hbody, hfile, hguarded⟩
  · have hafter : w.after thread ⟨.act actor action, output⟩ = w := by
      simp [Watch.after, hbody, Ne.symm hactor]
    rw [hafter]
    refine ⟨h.file.trans hfile.symm, h.current, ?_, ?_, ?_⟩
    · simpa only [hsame] using h.call
    · simpa only [hsame] using h.phase
    · simpa only [hsame] using h.own
  · have hafter : w.after thread ⟨.act actor action, output⟩ = w.put (some body) := by
      simp [Watch.after, hbody, Ne.symm hactor]
    rw [hafter]
    refine ⟨hfile.symm, by simp [put], ?_, ?_, fun _ hown => ?_⟩
    · simpa only [hsame, put] using h.call
    · simpa only [hsame] using h.phase.put _
    · -- the writer has the lock, so this thread has not
      simp only [hsame] at hown
      exact absurd (hlocked.unique hown hguarded) hactor

/-- A step of the thread itself. -/
theorem Tracks.self {thread : ℕ} {writeLock : Option ℕ} (h : Tracks thread w s)
    (hadvances : Advances S s.shared (s.phases thread) action phase shared output) :
    Tracks thread (w.after thread ⟨.act thread action, output⟩)
      ⟨shared, writeLock, update s.phases thread phase⟩ := by
  obtain ⟨hfile, hcurrent, hcall, hphase, hown⟩ := h
  have hpost : ∀ {w' : Watch}, w'.file = shared.file → w'.file ∈ w'.since →
      (phase ≠ .idle → w'.call.any Call.locks = phase.guarded) → phase.Tracks w' →
      (w'.foreign = false → phase.guarded → phase.Pending → ∀ content ∈ w'.since,
      content = w'.file) → Tracks thread w' ⟨shared, writeLock, update s.phases thread phase⟩ := by
    intro w' hfile hcurrent hcall hphase hown
    refine ⟨hfile, hcurrent, ?_, ?_, ?_⟩
    · simpa using hcall
    · simpa using hphase
    · simpa using hown
  -- a call that ended
  have hidle : phase = .idle → ∀ {w' : Watch}, w'.file = shared.file → w'.file ∈ w'.since →
      Tracks thread w' ⟨shared, writeLock, update s.phases thread phase⟩ := by
    rintro rfl w' hfile hcurrent
    exact hpost hfile hcurrent (absurd rfl) trivial fun _ hguarded =>
      absurd hguarded Bool.false_ne_true
  have hquiet : output.body = none →
    w.after thread ⟨.act thread action, output⟩ = w.act action := by
    intro hbody
    simp [Watch.after, hbody]
  have hput : ∀ {w' : Watch} {content : Option Text},
    content ∈ (w'.put content).since := by simp [put]
  generalize s.phases thread = before at hadvances hcall hphase hown
  cases hadvances with
  | start call =>
    rw [hquiet rfl]
    refine hpost hfile (mem_singleton.mpr rfl)
      (fun _ => rfl) trivial fun _ _ _ content hcontent => ?_
    exact mem_singleton.mp hcontent
  | clone call =>
    rw [hquiet rfl]
    exact hpost hfile hcurrent (fun _ => hcall nofun) trivial fun hforeign hguarded _ =>
      hown hforeign hguarded ⟨nofun, nofun⟩
  | read call remembered _ hfrom =>
    rw [hquiet rfl]
    have hpending : before.Pending ∧ before.guarded = call.locks := by
      rcases hfrom with rfl | ⟨rfl, -⟩ <;> exact ⟨⟨nofun, nofun⟩, rfl⟩
    refine hpost hfile hcurrent (fun _ => ?_)
      ⟨hfile, hfile ▸ hcurrent⟩ fun hforeign hguarded _ => ?_
    · exact (hcall hpending.1.1).trans hpending.2
    · exact hown hforeign (hpending.2.trans hguarded) hpending.1
  | stop _ _ _ _ haction houtput =>
    have hbody : output.body = none := by
      rcases houtput with ⟨error, rfl⟩ | ⟨-, answer, rfl⟩ <;> rfl
    rw [hquiet hbody, act_of_mayFail haction]
    exact hidle rfl hfile hcurrent
  | load call remembered content _ snapshot _ hsnapshot hto =>
    obtain ⟨hkept, -, hsource⟩ := snapshotOf_ok hsnapshot
    rw [hquiet rfl]
    rcases hto with ⟨-, rfl⟩ | ⟨mutation, rfl, rfl⟩
    · exact hidle rfl (hfile.trans hkept.symm) hcurrent
    · obtain ⟨rfl, hmem⟩ := hphase
      refine hpost (hfile.trans hkept.symm) hcurrent (fun _ => hcall nofun)
        ⟨?_, hmem⟩ fun hforeign _ _ => ?_
      · exact of_snapshotOf hsnapshot
      · exact hown hforeign rfl ⟨nofun, nofun⟩
  | write mutation snapshot _ _ records written answer body synced =>
    simp only [Watch.after, Output.body, if_true]
    refine hpost rfl hput (fun _ => hcall nofun) trivial fun _ _ hpending => ?_
    exact absurd rfl (hpending.2 body written snapshot.rejected answer synced)
  | setAside =>
    exact hidle rfl rfl hput
  | remember =>
    rw [hquiet rfl]
    exact hidle rfl hfile hcurrent

/-- **The trace tracks every call.** -/
theorem tracks_of_run (thread : ℕ) {file : Option Text} {trace : List Event}
    (hrun : Run (StepOf (step S)) (.init file) trace s) :
    Tracks thread (watch thread file trace) s ∧ s.Locked := by
  refine hrun.history ?_ ?_
  · refine ⟨⟨rfl, mem_singleton.mpr rfl, absurd rfl, trivial, fun _ hguarded => absurd hguarded
      Bool.false_ne_true⟩, ?_⟩
    intro u
    simp [System.init, Phase.guarded]
  · intro trace s event t _ ih hstep
    obtain ⟨htracks, hlocked⟩ := ih
    have hmoves := StepOf.moves hstep
    refine ⟨?_, hmoves.locked hlocked⟩
    rw [watch_snoc]
    cases hmoves with
    | act actor action output phase shared writeLock hadvances hlock =>
      by_cases hactor : thread = actor
      · subst hactor
        exact htracks.self hadvances
      · exact htracks.other hlocked hactor hadvances
    | replace content =>
      exact ⟨rfl, by simp [Watch.after, Watch.put], htracks.call, htracks.phase.put content, nofun⟩

/-! ### What a call reads and writes -/

section Events

variable {P : Text → Prop} {V : Snapshot → Prop} {file : Option Text} {trace : List Event}
    {s t : System}
  {thread : ℕ} {action : Action} {body : Text}

/-- How a body came about, from the content its call read. -/
inductive Rewrote (S : Serde) (P : Text → Prop) (V : Snapshot → Prop) (content : Option Text) :
    Call → Text → Prop
  | mutate (mutation : Mutation) (snapshot : Snapshot) (records written : Records)
      (answer : Answer) (body : Text)
      (hof : Of content snapshot) (hsnapshot : V snapshot)
      (hplan : mutation.plan snapshot.records = .rewrite records answer)
      (hemit : emit S records (snapshot.rejected.map (·.text)) = .ok (body, written)) :
      Rewrote S P V content (.mutate mutation) body
  | setAside (contentHash : String) (acceptPinLoss : Bool) (text : Text) (records written : Records)
      (kept : List RejectedLine) (body : Text) (htext : content = some text) (hP : P text)
      (hkept : Metadata.setAside S contentHash acceptPinLoss content = .ok (records, kept))
      (hemit : emit S records (kept.map (·.text)) = .ok (body, written)) :
      Rewrote S P V content (.setAside contentHash acceptPinLoss) body

/-- The snapshot of a call is that of the content it read. -/
theorem Tracks.snapshot (hkeeps : Keeps S P V) {w : Watch} {snapshot : Snapshot}
    (htracks : Tracks thread w s) (hgood : s.Good P V S)
    (hstep : StepOf (step S) s ⟨.act thread action, .snapshot snapshot⟩ t) :
    w.fetched ∈ w.since ∧ Of w.fetched snapshot ∧ V snapshot := by
  have hphase := htracks.phase
  have hgoodPhase := hgood.phases thread
  cases StepOf.moves hstep with
  | act _ _ _ phase shared writeLock hadvances hlock =>
    generalize s.phases thread = before at hadvances hphase hgoodPhase
    cases hadvances with
    | stop _ _ _ _ _ houtput => rcases houtput with ⟨error, h⟩ | ⟨-, answer, h⟩ <;> cases h
    | load call remembered content _ _ _ hsnapshot hto =>
      obtain ⟨rfl, hmem⟩ := hphase
      exact ⟨hmem, of_snapshotOf hsnapshot,
        (snapshotOf_good hkeeps hsnapshot hgood.shared hgoodPhase.1 hgoodPhase.2).1⟩

/-- A call writes what it makes of the content it read. -/
theorem Tracks.wrote {w : Watch} {call : Call} (htracks : Tracks thread w s) (hgood : s.Good P V S)
    (hstep : StepOf (step S) s ⟨.act thread action, .wrote call body⟩ t) :
    w.fetched ∈ w.since ∧ Rewrote S P V w.fetched call body ∧ t.shared.file = some body ∧
      (s.phases thread).guarded ∧ (s.phases thread).Pending := by
  have hphase := htracks.phase
  have hgoodPhase := hgood.phases thread
  cases StepOf.moves hstep with
  | act _ _ _ phase shared writeLock hadvances hlock =>
    generalize s.phases thread = before at hadvances hphase hgoodPhase
    cases hadvances with
    | stop _ _ _ _ _ houtput => rcases houtput with ⟨error, h⟩ | ⟨-, answer, h⟩ <;> cases h
    | write mutation snapshot _ _ records written answer _ synced hplan hemit =>
      obtain ⟨hof, hmem⟩ := hphase
      exact ⟨hmem, .mutate mutation snapshot records written answer body hof hgoodPhase hplan hemit,
        rfl, rfl, nofun, nofun⟩
    | setAside contentHash acceptPinLoss remembered content _ _ records written kept _ hkept hemit =>
      obtain ⟨rfl, hmem⟩ := hphase
      cases hcontent : w.fetched with
      | none =>
        rw [hcontent] at hkept
        cases hkept
      | some text =>
        rw [hcontent] at hkept hmem
        exact ⟨hmem, .setAside contentHash acceptPinLoss text records written kept body rfl
          (hgoodPhase.2 text hcontent) hkept hemit, rfl, rfl, nofun, nofun⟩

end Events

/-! ### Coherence -/

/-- No rejected line of the content ends in a carriage return. -/
def clean (S : Serde) (content : Text) : Bool :=
  match decode S content with
  | .ok (_, rejected) => rejected.all fun line => line.text.getLast? ≠ some '\r'
  | .error _ => true

theorem clean_iff {content : Text} : clean S content = true ↔ ∀ stored rejected,
    decode S content = .ok (stored, rejected) → ∀ line ∈ rejected,
    line.text.getLast? ≠ some '\r' := by
  unfold clean
  cases decode S content with
  | error error => simp
  | ok decoded =>
    obtain ⟨stored, rejected⟩ := decoded
    simp

/-- What a file holds; a missing one holds nothing. -/
def decodeFile (S : Serde) : Option Text → Except StoreError (StoreRecords × List RejectedLine)
  | none => .ok (⟨[], [], [], []⟩, [])
  | some content => decode S content

/-- The snapshot is the decode of its content, whose rejected lines do not
end in a carriage return. -/
structure Snapshot.Exact (S : Serde) (snapshot : Snapshot) : Prop where
  cached : snapshot.records.Cached S
  decoded : decode S snapshot.content = .ok (snapshot.records.owned, snapshot.rejected)
  clean : ∀ line ∈ snapshot.rejected, line.text.getLast? ≠ some '\r'

theorem Snapshot.Exact.decodeFile {snapshot : Snapshot} (h : snapshot.Exact S)
    (hof : Of content snapshot) :
    decodeFile S content = .ok (snapshot.records.owned, snapshot.rejected) := by
  rcases hof with ⟨rfl, rfl⟩ | rfl
  · rfl
  · exact h.decoded

variable {body : Text} {rejected : List RejectedLine}

/-- **Clean lines are read back as they are.** -/
theorem decode_render_clean (hS : S.Lawful) {stored : StoreRecords}
    (hpersistable : ∀ record ∈ stored.toList, record.persistable)
    (hrejected : ∀ line ∈ rejected, '\n' ∉ line.text ∧ Holds S line.text (.error line))
    (hclean : ∀ line ∈ rejected, line.text.getLast? ≠ some '\r')
    (h : render S stored (rejected.map (·.text)) = .ok body) :
    decode S body = .ok (stored.normalised, rejected) := by
  obtain ⟨rejected', hdecode, hreread⟩ := decode_render hS hpersistable hrejected h
  have hrejected' := decode_rejected hdecode
  have hboth := Pointwise.and_right_iff.mpr
    ⟨(Pointwise.and_right_iff.mpr ⟨hreread, hrejected'⟩).flip,
    fun line hline => And.intro (hrejected line hline) (hclean line hline)⟩
  have hsame : rejected' = rejected := by
    rw [← forall₂_eq_eq_eq]
    refine hboth.imp fun line' line hline => ?_
    obtain ⟨⟨htext, -, hholds'⟩, ⟨-, hholds⟩, hreturn⟩ := hline
    rw [htext, chomp_of_getLast? hreturn] at hholds'
    exact Except.error.inj (hholds'.unique hholds)
  rw [hdecode, hsame]

/-- A rewrite from exact records, read back. -/
theorem decode_emit_clean (hS : S.Lawful) {records written : Records}
    (hcached : records.Cached S)
    (hrejected : ∀ line ∈ rejected, '\n' ∉ line.text ∧ Holds S line.text (.error line))
    (hclean : ∀ line ∈ rejected, line.text.getLast? ≠ some '\r')
    (hemit : emit S records (rejected.map (·.text)) = .ok (body, written)) :
    decode S body = .ok (records.owned.normalised, rejected) := by
  obtain ⟨hrender, hpersistable, -, -⟩ := emit_eq_ok hcached hemit
  exact decode_render_clean hS (persistable_iff.mp hpersistable) hrejected hclean hrender

/-- What is left of a content when lines are set aside. -/
theorem setAside_ok {contentHash : String} {acceptPinLoss : Bool} {content : Text}
    {records : Records} {kept : List RejectedLine}
    (h : setAside S contentHash acceptPinLoss (some content) = .ok (records, kept)) :
    ∃ stored rejected, decode S content = .ok (stored, rejected) ∧
    records = .fromStoreRecords stored ∧
      kept = rejected.filter fun line => S.contentHash line.text ≠ contentHash := by
  unfold setAside at h
  dsimp only at h
  split at h
  · cases h
  · rename_i stored rejected hdecode
    split at h
    · cases h
    · split at h
      · split at h
        · cases h
          exact ⟨stored, rejected, hdecode, rfl, rfl⟩
        · cases h
      · cases h
        exact ⟨stored, rejected, hdecode, rfl, rfl⟩

theorem keeps_exact (hS : S.Lawful) :
    Keeps S (fun content => clean S content = true) (Snapshot.Exact S) where
  empty := ⟨Snapshot.Valid.empty.cached, decode_eq_ok_iff.mpr ⟨[], .nil, rfl, rfl⟩, nofun⟩
  decoded hclean hdecode := by
    refine ⟨cached_fromStoreRecords _, ?_, clean_iff.mp hclean _ _ hdecode⟩
    rw [owned_fromStoreRecords]
    exact hdecode
  mutated hexact hplan hemit := by
    have hcached := (Mutation.plan_rewrite hplan).cached hexact.cached
    have hdecode := decode_emit_clean hS hcached (decode_rejected hexact.decoded) hexact.clean hemit
    refine ⟨clean_iff.mpr fun stored rejected hbody => ?_, fun next hnext => ?_⟩
    · rw [hdecode] at hbody
      obtain ⟨-, rfl⟩ := Prod.mk.inj (Except.ok.inj hbody)
      exact hexact.clean
    · obtain ⟨-, hpersistable, howned, hwritten⟩ := emit_eq_ok hcached hemit
      have hpersistable' := persistable_iff.mpr (howned ▸ persistable_iff.mp hpersistable)
      obtain ⟨hcontent, hrejected, hrecords, hcached'⟩ :=
        remember_eq_some hS hwritten hpersistable' hnext
      refine ⟨hcached', ?_, ?_⟩
      · rw [hcontent, hdecode, hrecords, howned, hrejected]
      · rw [hrejected]
        exact hexact.clean
  setAside hclean hkept hemit := by
    obtain ⟨stored, rejected, hdecode, rfl, rfl⟩ := setAside_ok hkept
    refine clean_iff.mpr fun stored' rejected' hbody => ?_
    have hall := decode_rejected hdecode
    have hends := clean_iff.mp hclean _ _ hdecode
    rw [decode_emit_clean hS (cached_fromStoreRecords stored)
      (fun line hline => hall line (mem_filter.mp hline).1)
      (fun line hline => hends line (mem_filter.mp hline).1) hemit] at hbody
    obtain ⟨-, rfl⟩ := Prod.mk.inj (Except.ok.inj hbody)
    exact fun line hline => hends line (mem_filter.mp hline).1

/-- The body of a call by serialising every record of what it read, with its
change, and the texts of the rejected lines. -/
def FreshBody (S : Serde) (content : Option Text) : Call → Text → Prop
  | .load, _ => False
  | .mutate mutation, body => ∃ stored rejected next answer,
    decodeFile S content = .ok (stored, rejected) ∧
      mutation.plan (.fromStoreRecords stored) = .rewrite next answer ∧
      render S next.owned (rejected.map (·.text)) = .ok body
  | .setAside contentHash acceptPinLoss, body => ∃ records kept,
      setAside S contentHash acceptPinLoss content = .ok (records, kept) ∧
      render S records.owned (kept.map (·.text)) = .ok body

theorem Rewrote.fresh {P : Text → Prop} {call : Call}
    (h : Rewrote S P (Snapshot.Exact S) content call body) : FreshBody S content call body := by
  cases h with
  | mutate mutation snapshot records written answer _ hof hsnapshot hplan hemit =>
    refine ⟨snapshot.records.owned, snapshot.rejected, records.fresh, answer,
      hsnapshot.decodeFile hof, ?_, ?_⟩
    · -- the decision does not depend on the memoised lines
      rw [← fresh_eq, Mutation.plan_fresh, hplan]
      rfl
    · rw [fresh_eq, owned_fromStoreRecords]
      exact (emit_eq_ok ((Mutation.plan_rewrite hplan).cached hsnapshot.cached) hemit).1
  | setAside contentHash acceptPinLoss text records written kept _ htext _ hkept hemit =>
    subst htext
    obtain ⟨stored, rejected, -, rfl, -⟩ := setAside_ok hkept
    exact ⟨_, kept, hkept, (emit_eq_ok (cached_fromStoreRecords stored) hemit).1⟩

/-- What coherence says of one event of a run: the snapshot of a call is the
decode of a content the file had during the call, and a rewrite has the bytes
of serialising every record. -/
structure Coherent (S : Serde) (file : Option Text) (earlier : List Event)
    (event : Event) : Prop where
  snapshot : ∀ thread action snapshot, event = ⟨.act thread action, .snapshot snapshot⟩ →
    (watch thread file earlier).fetched ∈ (watch thread file earlier).since ∧
      decodeFile S (watch thread file earlier).fetched =
      .ok (snapshot.records.owned, snapshot.rejected)
  body : ∀ thread action call body, event = ⟨.act thread action, .wrote call body⟩ →
    (watch thread file earlier).fetched ∈ (watch thread file earlier).since ∧
      FreshBody S (watch thread file earlier).fetched call body

/-- **Cache coherence**, from files without rejected lines that end in a
carriage return. -/
theorem coherent_of_clean (hS : S.Lawful) {file : Option Text} {trace : List Event} {s : System}
    (hrun : Run (StepOf (step S)) (.init file) trace s)
    (hfile : ∀ text, file = some text → clean S text)
    (hreplaced : ∀ event ∈ trace, ∀ text, event.call = .replace (some text) → clean S text) :
    ∀ earlier event later, trace = earlier ++ event :: later → Coherent S file earlier event := by
  rintro earlier event later rfl
  obtain ⟨moment, hearlier, hrest⟩ := hrun.split
  obtain ⟨after, hstep, -⟩ := hrest.cons_inv
  have hgood := good_of_run (keeps_exact hS) hfile hearlier fun event hevent =>
    hreplaced event (mem_append_left _ hevent)
  refine ⟨?_, ?_⟩
  · rintro thread action snapshot rfl
    obtain ⟨hmem, hof, hexact⟩ :=
      (tracks_of_run thread hearlier).1.snapshot (keeps_exact hS) hgood hstep
    exact ⟨hmem, hexact.decodeFile hof⟩
  · rintro thread action call body rfl
    obtain ⟨hmem, hrewrote, -⟩ := (tracks_of_run thread hearlier).1.wrote hgood hstep
    exact ⟨hmem, hrewrote.fresh⟩

/-- The steps of a reader. -/
def loading (thread : ℕ) : List Input :=
  [.act thread (.start .load), .act thread .clone, .act thread (.read none), .act thread .finish]

/-- The steps of a mutator whose rewrite is committed. -/
def mutating (thread : ℕ) (mutation : Mutation) : List Input :=
  [.act thread (.start (.mutate mutation)), .act thread .clone, .act thread (.read none),
    .act thread .finish, .act thread (.write none (.committed true)), .act thread .remember]

/-- A mutator, a reader beside it that finishes after the rename, and a
reader after another process replaced the file. -/
def sampleCalls : List Input :=
  [.act 1 (.start .load), .act 1 .clone] ++ mutating 0 (.recordProject sampleProject) ++
    [.act 1 (.read none), .act 1 .finish, .replace (some "noise\n".toList)] ++ loading 2

theorem coherent_of_clean_sample : ∃ trace s,
    Run (StepOf (step (.ofTable sampleTable))) (.init (some "garbage\n".toList)) trace s ∧
      trace.map (·.call) = sampleCalls ∧ trace.filterMap (·.answer.body) =
      [sampleFile [.project sampleProject] ++ "garbage\n".toList] ∧
      ∀ earlier event later, trace = earlier ++ event :: later →
        Coherent (.ofTable sampleTable) (some "garbage\n".toList) earlier event := by
  have hexec : ((execAll (step (.ofTable sampleTable))
    (.init (some "garbage\n".toList)) sampleCalls).any fun r =>
      decide (r.2.filterMap (·.answer.body) =
        [sampleFile [.project sampleProject] ++ "garbage\n".toList])) = true := by decide +kernel
  obtain ⟨trace, s, hrun, hcalls, hbodies⟩ := execAll_any _ hexec
  refine ⟨trace, s, hrun, hcalls, of_decide_eq_true hbodies,
    coherent_of_clean sampleTable_lawful hrun ?_ ?_⟩
  · rintro text ⟨rfl⟩
    decide +kernel
  · intro event hevent text hcall
    have hmem : Input.replace (some text) ∈ sampleCalls := by
      rw [← hcalls, ← hcall]
      exact mem_map_of_mem hevent
    obtain rfl : text = "noise\n".toList := by
      simpa [sampleCalls, mutating, loading] using hmem
    decide +kernel

def Output.snapshot? : Output → Option Snapshot
  | .snapshot taken => some taken
  | _ => none

/-- **A carriage return outlives the rewrite in the memo.** The last line of
the file ends in a return; after a rewrite a reader is given the line with it,
and the file decodes to the line without. -/
theorem return_survives_rewrite : (Serde.ofTable sampleTable).Lawful ∧ ∃ earlier event s,
    Run (StepOf (step (.ofTable sampleTable))) (.init (some "garbage\r".toList))
    (earlier ++ [event]) s ∧
      ¬ Coherent (.ofTable sampleTable) (some "garbage\r".toList) earlier event := by
  refine ⟨sampleTable_lawful, ?_⟩
  have hexec : ((execAll (step (.ofTable sampleTable)) (.init (some "garbage\r".toList))
      ((mutating 0 (.recordProject sampleProject) ++ (loading 1).take 3) ++
      [.act 1 .finish])).any fun r =>
        r.2.getLast?.any fun event => event.answer.snapshot?.any fun snapshot =>
          !((decodeFile (.ofTable sampleTable)
            (watch 1 (some "garbage\r".toList) r.2.dropLast).fetched).toOption.any
            fun decoded => decide (decoded = (snapshot.records.owned, snapshot.rejected)))) := by
            decide +kernel
  obtain ⟨trace, s, hrun, hcalls, hlast⟩ := execAll_any _ hexec
  obtain ⟨earlier, last, rfl, -, hcall⟩ := map_eq_append_iff.mp hcalls
  obtain ⟨⟨call, answer⟩, rfl, hfinish⟩ := map_eq_singleton_iff.mp hcall
  obtain rfl : call = .act 1 .finish := hfinish
  refine ⟨earlier, _, s, hrun, fun hcoherent => ?_⟩
  rw [getLast?_concat, dropLast_concat] at hlast
  cases answer with
  | snapshot snapshot =>
    obtain ⟨-, hdecoded⟩ := hcoherent.snapshot 1 .finish snapshot rfl
    rw [hdecoded] at hlast
    simp [Output.snapshot?, Except.toOption] at hlast
  | silent | answered | failed | wrote => cases hlast

end Pohunek.Metadata
