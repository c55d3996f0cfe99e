/-
# A rewrite changes one record

A mutation reads the whole file and writes it again. `Applied` says what the
new file holds in terms of the old one: the records of the mutation's plan as
they are loaded, and the rejected lines. From it, whatever the interleaving:
the records a mutation is not about are those of the file it read, in their
order (`frame_of_run`), and a call that fails leaves the file as it is.

The order is that of each kind. A rewrite writes the kinds one after another,
so records of different kinds can change places.
-/
import Pohunek.Metadata.Coherence

namespace Pohunek.Metadata

open Fallible LineLog Runs Records

variable {S : Serde}

/-! ### Valid snapshots -/

theorem keeps_valid (hS : S.Lawful) : Keeps S (fun _ => True) (Snapshot.Valid S) where
  empty := .empty
  decoded _ hdecode := .ofDecode hdecode
  mutated hvalid hplan hemit :=
    ⟨trivial, fun _ => .remember hS
      ((Mutation.plan_rewrite hplan).cached hvalid.cached) hvalid.rejected hemit⟩
  setAside _ _ _ := trivial

theorem valid_of_run (hS : S.Lawful) {file : Option Text} {trace : List Event} {s : System}
    (hrun : Run (StepOf (step S)) (.init file) trace s) :
    s.Good (fun _ => True) (Snapshot.Valid S) S :=
  good_of_run (keeps_valid hS) (fun _ _ => trivial) hrun fun _ _ _ _ => trivial

variable {content : Option Text}

theorem Snapshot.Valid.decodeFile {snapshot : Snapshot} (h : snapshot.Valid S)
    (hof : Of content snapshot) :
    ∃ rejected, decodeFile S content = .ok (snapshot.records.owned, rejected) ∧
      List.Forall₂ Reads snapshot.rejected rejected := by
  rcases hof with ⟨rfl, rfl⟩ | rfl
  · exact ⟨[], rfl, .nil⟩
  · exact h.decoded

theorem decodeFile_stable (hS : S.Lawful) {stored : StoreRecords}
    {rejected : List RejectedLine} (h : decodeFile S content = .ok (stored, rejected)) :
    stored.normalised = stored := by
  cases content with
  | none =>
    cases h
    rfl
  | some text => exact decode_stable hS h

/-! ### What a rewrite does to the file -/

/-- The rejected line is still there, if its text does not end in a carriage
return. -/
def Kept (line line' : RejectedLine) : Prop := line.text.getLast? ≠ some '\r' →
    line'.text = line.text

/-- The file after a mutation, in terms of the file before it. -/
def Applied (S : Serde) (content : Option Text) (mutation : Mutation) (body : Text) : Prop :=
  ∃ stored rejected next answer rejected', decodeFile S content = .ok (stored, rejected) ∧
    mutation.plan (.fromStoreRecords stored) = .rewrite next answer ∧
    decode S body = .ok (next.owned.normalised, rejected') ∧ List.Forall₂ Kept rejected rejected'

/-- Where the memo has a line that the file has without its carriage return,
both are written without it. -/
theorem kept_of_reads {memoised rejected rejected' : List RejectedLine}
    (hreads : List.Forall₂ Reads memoised rejected)
    (hwritten : List.Forall₂ (fun line line' => line'.text = chomp '\r' line.text) memoised
      rejected') : List.Forall₂ Kept rejected rejected' := by
  induction hreads generalizing rejected' with
  | nil =>
    cases hwritten
    exact .nil
  | cons hread _ ih =>
    cases hwritten with
    | cons hline hrest =>
      refine .cons (fun hends => ?_) (ih hrest)
      rcases hread with hread | hread
      · rw [hline, ← hread, chomp_of_getLast? hends]
      · rw [hline, hread]

variable {P : Text → Prop} {body : Text}

theorem Rewrote.applied (hS : S.Lawful) {mutation : Mutation}
    (h : Rewrote S P (Snapshot.Valid S) content (.mutate mutation) body) :
    Applied S content mutation body := by
  cases h with
  | mutate _ snapshot records written answer _ hof hvalid hplan hemit =>
    obtain ⟨rejected, hdecode, hreads⟩ := hvalid.decodeFile hof
    obtain ⟨hrender, hpersistable, -, -⟩ :=
      emit_eq_ok ((Mutation.plan_rewrite hplan).cached hvalid.cached) hemit
    obtain ⟨rejected', hbody, hwritten⟩ :=
      decode_render hS (persistable_iff.mp hpersistable) hvalid.rejected hrender
    refine ⟨snapshot.records.owned, rejected, records.fresh, answer, rejected', hdecode, ?_, ?_,
      kept_of_reads hreads hwritten⟩
    · rw [← fresh_eq, Mutation.plan_fresh, hplan]
      rfl
    · rw [fresh_eq, owned_fromStoreRecords]
      exact hbody

/-- The records of a file stay when lines are set aside, and so do the other
rejected lines. -/
theorem Rewrote.aside (hS : S.Lawful) {V : Snapshot → Prop} {contentHash : String}
    {acceptPinLoss : Bool} (h : Rewrote S P V content (.setAside contentHash acceptPinLoss) body) :
    ∃ stored rejected rejected', decodeFile S content = .ok (stored, rejected) ∧
      decode S body = .ok (stored, rejected') ∧
      List.Forall₂ Kept (rejected.filter fun line => S.contentHash line.text ≠ contentHash)
      rejected' := by
  cases h with
  | setAside _ _ text records written kept _ htext _ hkept hemit =>
    subst htext
    obtain ⟨stored, rejected, hdecode, rfl, rfl⟩ := setAside_ok hkept
    obtain ⟨hrender, hpersistable, -, -⟩ := emit_eq_ok (cached_fromStoreRecords stored) hemit
    obtain ⟨rejected', hbody, hwritten⟩ := decode_render hS (persistable_iff.mp hpersistable)
      (fun line hline => decode_rejected hdecode line (List.mem_filter.mp hline).1) hrender
    rw [owned_fromStoreRecords, decode_stable hS hdecode] at hbody
    refine ⟨stored, rejected, rejected', hdecode, hbody,
      hwritten.imp fun line line' hline hends => ?_⟩
    rw [hline, chomp_of_getLast? hends]

/-! ### The frame -/

theorem Mutation.keyed_normalised (mutation : Mutation) (record : Record) :
    mutation.keyed record.normalised = mutation.keyed record := by
  cases record with
  | session record => cases mutation <;> rfl
  | resume | worktree | project => rfl

theorem StoreRecords.others_normalised {keyed : Record → Bool}
    (hkeyed : ∀ record, keyed record.normalised = keyed record) (stored : StoreRecords) :
    stored.normalised.others keyed = (stored.others keyed).map Record.normalised := by
  rw [others, others, toList_normalised, List.filter_map]
  simp only [Function.comp_def, hkeyed]

/-- **A mutation leaves the other records as they were loaded.** -/
theorem Applied.frame (hS : S.Lawful) {mutation : Mutation}
    (h : Applied S content mutation body) : ∃ stored rejected stored' rejected',
      decodeFile S content = .ok (stored, rejected) ∧ decode S body = .ok (stored', rejected') ∧
      (mutation.KeepsKey → stored'.others mutation.keyed = stored.others mutation.keyed) ∧
      List.Forall₂ Kept rejected rejected' := by
  obtain ⟨stored, rejected, next, answer, rejected', hdecode, hplan, hbody, hkept⟩ := h
  refine ⟨stored, rejected, next.owned.normalised, rejected', hdecode, hbody, fun hkey => ?_, hkept⟩
  have hframe := (Mutation.plan_rewrite hplan).frame hkey
  rw [owned_fromStoreRecords] at hframe
  calc next.owned.normalised.others mutation.keyed
      = (next.owned.others mutation.keyed).map Record.normalised :=
        StoreRecords.others_normalised mutation.keyed_normalised _
    _ = (stored.others mutation.keyed).map Record.normalised := by rw [hframe]
    _ = stored.normalised.others mutation.keyed :=
        (StoreRecords.others_normalised mutation.keyed_normalised _).symm
    _ = stored.others mutation.keyed := by rw [decodeFile_stable hS hdecode]

/-- What the frame says of one event of a run. A rewrite is of the content
that its call read, which is the file where no other process replaced it
during the call. A mutator that fails has left the file as it was. -/
structure Framed (S : Serde) (file : Option Text) (earlier : List Event)
    (event : Event) : Prop where
  wrote : ∀ thread action mutation body,
  event = ⟨.act thread action, .wrote (.mutate mutation) body⟩ →
    ∃ stored rejected stored' rejected',
      decodeFile S (watch thread file earlier).fetched = .ok (stored, rejected) ∧
      decode S body = .ok (stored', rejected') ∧
      (mutation.KeepsKey → stored'.others mutation.keyed = stored.others mutation.keyed) ∧
      List.Forall₂ Kept rejected rejected'
  aside : ∀ thread action contentHash acceptPinLoss body,
    event = ⟨.act thread action, .wrote (.setAside contentHash acceptPinLoss) body⟩ →
    ∃ stored rejected rejected', decodeFile S (watch thread file earlier).fetched =
      .ok (stored, rejected) ∧ decode S body = .ok (stored, rejected') ∧
      List.Forall₂ Kept
      (rejected.filter fun line => S.contentHash line.text ≠ contentHash) rejected'
  current : ∀ thread action call body, event = ⟨.act thread action, .wrote call body⟩ →
    (watch thread file earlier).foreign = false →
    (watch thread file earlier).fetched = (watch thread file earlier).file
  failed : ∀ thread action error, event = ⟨.act thread action, .failed error⟩ →
    (watch thread file earlier).call.any Call.locks = true →
    (watch thread file earlier).foreign = false → ∀ content ∈ (watch thread file earlier).since,
    content = (watch thread file (earlier ++ [event])).file

theorem Tracks.fetched_current {thread : ℕ} {w : Watch} {s t : System} {V : Snapshot → Prop}
    {action : Action} {call : Call} (htracks : Tracks thread w s) (hgood : s.Good P V S)
    (hstep : StepOf (step S) s ⟨.act thread action, .wrote call body⟩ t)
    (hforeign : w.foreign = false) : w.fetched = w.file := by
  obtain ⟨hmem, -, -, hguarded, hpending⟩ := htracks.wrote hgood hstep
  exact htracks.own hforeign hguarded hpending _ hmem

theorem Tracks.failed {thread : ℕ} {w : Watch} {s t : System} {action : Action}
    {error : SetAsideError} (htracks : Tracks thread w s)
    (hstep : StepOf (step S) s ⟨.act thread action, .failed error⟩ t)
    (hcall : w.call.any Call.locks = true) (hforeign : w.foreign = false) :
    ∀ content ∈ w.since, content = (w.after thread ⟨.act thread action, .failed error⟩).file := by
  cases StepOf.moves hstep with
  | act _ _ _ phase shared writeLock hadvances hlock =>
    have hpending : (s.phases thread).Pending ∧ action.MayFail := by
      generalize s.phases thread = before at hadvances
      cases hadvances with
      | stop _ _ _ hphase haction => exact ⟨hphase, haction⟩
    have hafter : w.after thread ⟨.act thread action, .failed error⟩ = w := by
      simp [Watch.after, Output.body, Watch.act_of_mayFail hpending.2]
    rw [hafter]
    exact htracks.own hforeign ((htracks.call hpending.1.1).symm.trans hcall) hpending.1

/-- **Frame of the metadata store.** -/
theorem frame_of_run (hS : S.Lawful) {file : Option Text} {trace : List Event} {s : System}
    (hrun : Run (StepOf (step S)) (.init file) trace s) :
    ∀ earlier event later, trace = earlier ++ event :: later → Framed S file earlier event := by
  rintro earlier event later rfl
  obtain ⟨moment, hearlier, hrest⟩ := hrun.split
  obtain ⟨after, hstep, -⟩ := hrest.cons_inv
  have hgood := valid_of_run hS hearlier
  refine ⟨?_, ?_, ?_, ?_⟩
  · rintro thread action mutation body rfl
    exact (((tracks_of_run thread hearlier).1.wrote hgood hstep).2.1.applied hS).frame hS
  · rintro thread action contentHash acceptPinLoss body rfl
    exact ((tracks_of_run thread hearlier).1.wrote hgood hstep).2.1.aside hS
  · rintro thread action call body rfl
    exact (tracks_of_run thread hearlier).1.fetched_current hgood hstep
  · rintro thread action error rfl
    rw [watch_snoc]
    exact (tracks_of_run thread hearlier).1.failed hstep

/-- The loaded records of a file, in the order of its lines. -/
def fileRecords (S : Serde) (content : Text) : List Record :=
  match checkedLines S content with
  | .ok lines => (lines.map (sortLine S)).filterMap Except.toOption
  | .error _ => []

def sampleContent : Text := sampleFile [.session (sampleSession .running), .resume sampleResume] ++
    "garbage\n".toList

def sampleBody : Text :=
  sampleFile [.resume sampleResume, .project sampleProject, .session (sampleSession .running)] ++
    "garbage\n".toList

theorem sample_run :
    ∃ trace s, Run (StepOf (step (.ofTable sampleTable))) (.init (some sampleContent)) trace s ∧
    trace.filterMap (·.answer.body) = [sampleBody] := by
  exact ⟨_, _, (execAll_get _ _ (mutating 0 (.recordProject sampleProject))
    (by decide +kernel)).1, by decide +kernel⟩

theorem frame_of_run_sample : ∃ trace s,
    Run (StepOf (step (.ofTable sampleTable))) (.init (some sampleContent)) trace s ∧
      trace.filterMap (·.answer.body) = [sampleBody] ∧
      ∀ earlier event later, trace = earlier ++ event :: later →
        Framed (.ofTable sampleTable) (some sampleContent) earlier event := by
  obtain ⟨trace, s, hrun, hbodies⟩ := sample_run
  exact ⟨trace, s, hrun, hbodies, frame_of_run sampleTable_lawful hrun⟩

/-- **Records of different kinds change places.** Recording a project in a file
with a session and then a resume binding writes the binding first. -/
theorem kinds_change_places : ∃ trace s,
    Run (StepOf (step (.ofTable sampleTable))) (.init (some sampleContent)) trace s ∧
      trace.filterMap (·.answer.body) = [sampleBody] ∧
      (fileRecords (.ofTable sampleTable) sampleContent).filter
      (!(Mutation.recordProject sampleProject).keyed ·) =
        [.session (sampleSession .running), .resume sampleResume] ∧
      (fileRecords (.ofTable sampleTable) sampleBody).filter
      (!(Mutation.recordProject sampleProject).keyed ·) =
        [.resume sampleResume, .session (sampleSession .running)] := by
  obtain ⟨trace, s, hrun, hbodies⟩ := sample_run
  exact ⟨trace, s, hrun, hbodies, by decide +kernel, by decide +kernel⟩

end Pohunek.Metadata
