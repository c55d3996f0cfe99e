/-
# What a mutation does to the records

A mutation sees the records and never their memoised lines: it decides the
same and makes the same change on records without lines (`Mutation.plan_fresh`),
and every line it leaves is still that of its record (`Rewrites.cached`).
It changes the records it is about and no others (`Rewrites.frame`).
-/
import Pohunek.Metadata.Rewrite

namespace Pohunek.Metadata

open Keyed Records List

variable {S : Serde} {records next : Records} {answer : Answer} {mutation : Mutation}

/-! ### Primitive changes -/

section Primitive

variable {α : Type} {kind : Kind α} {p : α → Bool} {merge : Option α → α} {entries : List (Entry α)}

/-- The entry without its line. -/
def Entry.fresh (entry : Entry α) : Entry α := .new entry.record

@[simp] theorem Entry.record_fresh (entry : Entry α) : entry.fresh.record = entry.record := rfl

theorem mem_upsert {entry : Entry α} (h : entry ∈ upsert p merge entries) :
    entry ∈ entries ∨ ∃ record, entry = .new record := by
  unfold upsert at h
  split at h
  · rcases mem_modifyFirst h with h | ⟨old, -, -, rfl⟩
    · exact .inl h
    · exact .inr ⟨_, rfl⟩
  · rcases mem_append.mp h with h | h
    · exact .inl h
    · exact .inr ⟨_, mem_singleton.mp h⟩

theorem upsert_cached (h : ∀ entry ∈ entries, entry.Cached S kind) :
    ∀ entry ∈ upsert p merge entries, entry.Cached S kind := by
  intro entry hentry
  rcases mem_upsert hentry with hentry | ⟨record, rfl⟩
  · exact h entry hentry
  · exact .new record

theorem retain_cached (h : ∀ entry ∈ entries, entry.Cached S kind) : ∀ entry ∈ retain p entries,
    entry.Cached S kind :=
  fun entry hentry => h entry (mem_filter.mp hentry).1

variable {f : α → α}

theorem edit_cached {q : Entry α → Bool} (h : ∀ entry ∈ entries, entry.Cached S kind) :
    ∀ entry ∈ modifyFirst q (.edit f) entries, entry.Cached S kind := by
  intro entry hentry
  rcases mem_modifyFirst hentry with hentry | ⟨old, -, -, rfl⟩
  · exact h entry hentry
  · exact .new _

theorem find?_fresh (p : α → Bool) (entries : List (Entry α)) :
    (entries.map Entry.fresh).find? (fun entry => p entry.record) =
      (entries.find? fun entry => p entry.record).map Entry.fresh :=
  find?_map

theorem upsert_fresh :
    upsert p merge (entries.map .fresh) = (upsert p merge entries).map .fresh := by
  unfold upsert
  rw [find?_fresh]
  cases entries.find? fun entry => p entry.record with
  | none => simp only [Option.map_none, map_append]; rfl
  | some found =>
    have hreplace : ∀ entry : Entry α, entry.fresh.replace (merge (some entry.fresh.record)) =
        (entry.replace (merge (some entry.record))).fresh := fun _ => rfl
    exact modifyFirst_map hreplace entries

theorem retain_fresh : retain p (entries.map .fresh) = (retain p entries).map .fresh := filter_map

theorem edit_fresh :
    modifyFirst (fun entry => p entry.record) (Entry.edit f) (entries.map Entry.fresh) =
      (modifyFirst (fun entry => p entry.record) (Entry.edit f) entries).map Entry.fresh := by
  have hedit : ∀ entry : Entry α, entry.fresh.edit f = (entry.edit f).fresh := fun _ => rfl
  exact modifyFirst_map hedit entries

/-- The records outside `keyed`. -/
def othersOf (kind : Kind α) (keyed : Record → Bool) (entries : List (Entry α)) : List α :=
  (entries.map (·.record)).filter fun record => !keyed (kind.wrap record)

/-! The records outside `keyed` stay, in their order, when everything that is
changed, added or removed is in `keyed`. -/

variable {keyed : Record → Bool}

theorem upsert_frame (hp : ∀ record, p record → keyed (kind.wrap record))
    (hmerge : ∀ existing, keyed (kind.wrap (merge existing))) :
    othersOf kind keyed (upsert p merge entries) = othersOf kind keyed entries := by
  unfold othersOf
  rw [filter_map, filter_map]
  congr 1
  unfold upsert
  split
  · refine filter_modifyFirst (fun entry hentry => ⟨?_, ?_⟩) entries
    · simp [hp _ hentry]
    · simp [Entry.replace, Entry.new, hmerge]
  · simp [filter_append, Entry.new, hmerge]

theorem retain_frame (hp : ∀ record, p record = false → keyed (kind.wrap record)) :
    othersOf kind keyed (retain p entries) = othersOf kind keyed entries := by
  unfold othersOf
  rw [filter_map, filter_map, retain, filter_filter]
  congr 1
  refine filter_congr fun entry _ => ?_
  cases hpe : p entry.record with
  | true => simp
  | false => simp [hp _ hpe]

theorem edit_frame (hp : ∀ record, p record → keyed (kind.wrap record))
    (hf : ∀ record, p record → keyed (kind.wrap (f record))) :
    othersOf kind keyed (modifyFirst (fun entry => p entry.record) (.edit f) entries) =
    othersOf kind keyed entries := by
  unfold othersOf
  rw [filter_map, filter_map]
  congr 1
  refine filter_modifyFirst (fun entry hentry => ⟨?_, ?_⟩) entries
  · simp [hp _ hentry]
  · simp [Entry.edit, hf _ hentry]

end Primitive

/-! ### Memoised lines -/

/-- The records without their lines. -/
def Records.fresh (records : Records) : Records where
  resume := records.resume.map .fresh
  worktrees := records.worktrees.map .fresh
  projects := records.projects.map .fresh
  sessions := records.sessions.map .fresh

theorem Records.fresh_eq (records : Records) : records.fresh = .fromStoreRecords records.owned := by
  simp only [fresh, fromStoreRecords, owned, map_map]
  rfl

def Plan.fresh : Plan → Plan
  | .keep answer => .keep answer
  | .rewrite records answer => .rewrite records.fresh answer

theorem Records.session_fresh (sessionId : String) :
    records.fresh.session sessionId = (records.session sessionId).map .fresh :=
  find?_fresh (fun record : SessionRecord => record.sessionId = sessionId) records.sessions

theorem Records.storeSession_fresh (record : SessionRecord) :
    records.fresh.storeSession record = (records.storeSession record).fresh := by
  have hresume : dropResumeOfTerminalSession record (records.resume.map .fresh) =
      (dropResumeOfTerminalSession record records.resume).map .fresh := by
    unfold dropResumeOfTerminalSession
    split
    · exact retain_fresh
    · rfl
  simp only [storeSession, fresh, upsert_fresh, hresume]

theorem Records.authoritative_fresh (sessionId : String) :
    records.fresh.authoritative sessionId = records.authoritative sessionId := by
  rw [authoritative, authoritative, session_fresh]
  cases records.session sessionId <;> rfl

variable {removed unchanged : Answer}

theorem removal_fresh {kept before : ℕ} :
    (removal kept before records removed unchanged).fresh =
    removal kept before records.fresh removed unchanged := by
  unfold removal
  split <;> rfl

/-- **A mutation does not see memoised lines.** -/
theorem Mutation.plan_fresh (mutation : Mutation) (records : Records) :
    mutation.plan records.fresh = (mutation.plan records).fresh := by
  cases mutation with
  | recordSession record | recordSessionIfCurrent expected record =>
    simp only [Mutation.plan, Metadata.recordSession, Metadata.recordSessionIfCurrent,
      session_fresh, storeSession_fresh]
    cases records.session record.sessionId with
    | none => rfl
    | some existing =>
      simp only [Option.map_some, Entry.record_fresh, apply_ite Plan.fresh]
      rfl
  | clearInitialInput sessionId =>
    simp only [Mutation.plan, Metadata.clearInitialInput, fresh]
    rw [find?_fresh (SessionRecord.marked sessionId),
      edit_fresh (p := SessionRecord.marked sessionId)]
    cases records.sessions.find? fun entry => entry.record.marked sessionId <;> rfl
  | replaceSessionMetadata sessionId metadata updatedAt =>
    simp only [Mutation.plan, Metadata.replaceSessionMetadata, session_fresh]
    cases records.session sessionId with
    | none => rfl
    | some existing =>
      simp only [Option.map_some, Plan.fresh, fresh]
      rw [edit_fresh (p := fun record : SessionRecord => record.sessionId = sessionId)]
  | recordResume binding =>
    simp only [Mutation.plan, Metadata.recordResume, authoritative_fresh, Plan.fresh]
    simp only [fresh, upsert_fresh]
  | mutateProject gitCommonDir mutate =>
    simp only [Mutation.plan, Metadata.mutateProject, fresh]
    have hcurrent :=
      find?_fresh (fun record : ProjectRecord => record.gitCommonDir = gitCommonDir)
      records.projects
    rw [hcurrent, Option.map_map]
    have hrecord : (fun entry : Entry ProjectRecord => entry.record) ∘ Entry.fresh = fun entry =>
      entry.record := rfl
    rw [hrecord]
    split
    · rfl
    · simp only [Plan.fresh, fresh, upsert_fresh]
  | recordWorktree | recordProject =>
    simp only [Mutation.plan, Metadata.recordWorktree, Metadata.recordProject, Plan.fresh, fresh,
      upsert_fresh]
  | removeSession | removeResume | removeWorktreeSession | removeWorktreeBinding | removeProject =>
    simp only [Mutation.plan, Metadata.removeSession, Metadata.removeResume,
      Metadata.removeWorktreeSession,
      Metadata.removeWorktreeBinding, Metadata.removeProject, removal_fresh, fresh, retain_fresh,
      length_map]

/-! ### What a rewrite is -/

/-- The records a mutation rewrites the file with. -/
inductive Rewrites : Mutation → Records → Records → Prop
  | recordSession {records : Records} (record : SessionRecord)
      (hfresh : ∀ existing, records.session record.sessionId = some existing →
        staleRuntimeSnapshot existing.record record = false) :
      Rewrites (.recordSession record) records (records.storeSession record)
  | recordSessionIfCurrent {records : Records} (record : SessionRecord)
      (existing : Entry SessionRecord)
      (hexisting : records.session record.sessionId = some existing)
      (hfresh : staleRuntimeSnapshot existing.record record = false) :
      Rewrites (.recordSessionIfCurrent existing.record record) records
      (records.storeSession record)
  | clearInitialInput {records : Records} (sessionId : String) :
      Rewrites (.clearInitialInput sessionId) records { records with
        sessions := modifyFirst (fun entry => entry.record.marked sessionId)
          (.edit fun record => { record with transaction := none }) records.sessions }
  | replaceSessionMetadata {records : Records} (sessionId : String)
      (metadata : List (String × String))
      (updatedAt : String) :
      Rewrites (.replaceSessionMetadata sessionId metadata updatedAt) records { records with
        sessions := modifyFirst (fun entry => entry.record.sessionId = sessionId)
          (.edit (withMetadata metadata updatedAt)) records.sessions }
  | removeSession {records : Records} (sessionId : String) :
      Rewrites (.removeSession sessionId) records { records with
        sessions := retain (fun record => record.sessionId ≠ sessionId) records.sessions }
  | recordResume {records : Records} (binding replacement : ResumeBinding)
      (hkey : replacement.sessionId = binding.sessionId) :
      Rewrites (.recordResume binding) records { records with
        resume := upsert (fun existing => existing.sessionId = binding.sessionId)
          (fun _ => replacement) records.resume }
  | removeResume {records : Records} (sessionId : String) :
      Rewrites (.removeResume sessionId) records { records with
        resume := retain (fun binding => binding.sessionId ≠ sessionId) records.resume }
  | recordWorktree {records : Records} (binding : WorktreeBinding) :
      Rewrites (.recordWorktree binding) records { records with
        worktrees := upsert (·.sameKey binding) (fun _ => binding) records.worktrees }
  | removeWorktreeSession {records : Records} (sessionId : String) :
      Rewrites (.removeWorktreeSession sessionId) records { records with
        worktrees := retain (fun binding => binding.sessionId ≠ sessionId) records.worktrees }
  | removeWorktreeBinding {records : Records} (binding : WorktreeBinding) :
      Rewrites (.removeWorktreeBinding binding) records { records with
        worktrees := retain (fun existing => !existing.sameKey binding) records.worktrees }
  | mutateProject {records : Records} (gitCommonDir : String)
      (mutate : Option ProjectRecord → Option ProjectRecord)
      (updated : ProjectRecord) (hupdated : ∃ current, mutate current = some updated) :
      Rewrites (.mutateProject gitCommonDir mutate) records { records with
        projects := upsert (fun existing => existing.gitCommonDir = gitCommonDir)
          (fun _ => updated) records.projects }
  | recordProject {records : Records} (record : ProjectRecord) :
      Rewrites (.recordProject record) records { records with
        projects := upsert (fun existing => existing.gitCommonDir = record.gitCommonDir)
          (fun _ => record) records.projects }
  | removeProject {records : Records} (gitCommonDir : String) :
      Rewrites (.removeProject gitCommonDir) records { records with
        projects := retain (fun record => record.gitCommonDir ≠ gitCommonDir) records.projects }

theorem removal_eq_rewrite {kept before : ℕ} {changed : Records}
    (h : removal kept before changed removed unchanged = .rewrite next answer) :
    changed = next := by
  unfold removal at h
  split at h
  · cases h
  · exact (Plan.rewrite.inj h).1

theorem Mutation.plan_rewrite (h : mutation.plan records = .rewrite next answer) :
    Rewrites mutation records next := by
  cases mutation with
  | recordSession record =>
    revert h
    simp only [Mutation.plan]
    fun_cases Metadata.recordSession record records <;> rintro ⟨⟩
    next existing hexisting hfresh =>
      refine .recordSession record fun found hfound => ?_
      rw [hexisting] at hfound
      cases hfound
      simpa using hfresh
    next hexisting => exact .recordSession record (by simp [hexisting])
  | recordSessionIfCurrent expected record =>
    revert h
    simp only [Mutation.plan]
    fun_cases Metadata.recordSessionIfCurrent expected record records <;> rintro ⟨⟩
    next existing hexisting hfresh hsame =>
      obtain rfl := not_ne_iff.mp hsame
      exact .recordSessionIfCurrent record existing hexisting (by simpa using hfresh)
  | clearInitialInput | replaceSessionMetadata =>
    simp only [Mutation.plan, Metadata.clearInitialInput, Metadata.replaceSessionMetadata] at h
    split at h
    · cases h
    · obtain rfl := (Plan.rewrite.inj h).1
      constructor
  | recordResume binding =>
    obtain rfl := (Plan.rewrite.inj h).1
    refine .recordResume binding _ ?_
    cases records.authoritative binding.sessionId <;> rfl
  | mutateProject gitCommonDir mutate =>
    simp only [Mutation.plan, Metadata.mutateProject] at h
    split at h
    · cases h
    · rename_i updated hupdated
      obtain rfl := (Plan.rewrite.inj h).1
      exact .mutateProject gitCommonDir mutate updated ⟨_, hupdated⟩
  | recordWorktree | recordProject =>
    obtain rfl := (Plan.rewrite.inj h).1
    constructor
  | removeSession | removeResume | removeWorktreeSession | removeWorktreeBinding | removeProject =>
    obtain rfl := removal_eq_rewrite h
    constructor

section Cached

variable (h : records.Cached S)
include h

theorem Records.Cached.withResume {resume : List (Entry ResumeBinding)}
    (hresume : ∀ entry ∈ resume, entry.Cached S .resume) : { records with resume }.Cached S :=
  { h with resume := hresume }

theorem Records.Cached.withWorktrees {worktrees : List (Entry WorktreeBinding)}
    (hworktrees : ∀ entry ∈ worktrees, entry.Cached S .worktree) :
    { records with worktrees }.Cached S :=
  { h with worktrees := hworktrees }

theorem Records.Cached.withProjects {projects : List (Entry ProjectRecord)}
    (hprojects : ∀ entry ∈ projects, entry.Cached S .project) :
    { records with projects }.Cached S :=
  { h with projects := hprojects }

theorem Records.Cached.withSessions {sessions : List (Entry SessionRecord)}
    (hsessions : ∀ entry ∈ sessions, entry.Cached S .session) :
    { records with sessions }.Cached S :=
  { h with sessions := hsessions }

theorem Records.Cached.storeSession (record : SessionRecord) :
    (records.storeSession record).Cached S := by
  have hresume : ∀ entry ∈ dropResumeOfTerminalSession record records.resume,
    entry.Cached S .resume := by
    unfold dropResumeOfTerminalSession
    split
    · exact retain_cached h.resume
    · exact h.resume
  exact (h.withResume hresume).withSessions (upsert_cached h.sessions)

end Cached

/-- **Every line a mutation leaves is that of its record.** -/
theorem Rewrites.cached (h : Rewrites mutation records next) (hcached : records.Cached S) :
    next.Cached S := by
  cases h with
  | recordSession record => exact hcached.storeSession record
  | recordSessionIfCurrent record => exact hcached.storeSession record
  | clearInitialInput | replaceSessionMetadata =>
    exact hcached.withSessions (edit_cached hcached.sessions)
  | removeSession => exact hcached.withSessions (retain_cached hcached.sessions)
  | recordResume => exact hcached.withResume (upsert_cached hcached.resume)
  | removeResume => exact hcached.withResume (retain_cached hcached.resume)
  | recordWorktree => exact hcached.withWorktrees (upsert_cached hcached.worktrees)
  | removeWorktreeSession | removeWorktreeBinding =>
    exact hcached.withWorktrees (retain_cached hcached.worktrees)
  | mutateProject | recordProject => exact hcached.withProjects (upsert_cached hcached.projects)
  | removeProject => exact hcached.withProjects (retain_cached hcached.projects)

/-! ### What a mutation is about -/

/-- The records a mutation is about: the keyed ones and, with a terminal
session, its resume binding. -/
def Mutation.keyed : Mutation → Record → Bool
  | .recordSession record, .session existing => existing.sessionId = record.sessionId
  | .recordSession record, .resume binding => record.info.state.isTerminal && binding.sessionId =
    record.sessionId
  | .recordSessionIfCurrent _ record, .session existing => existing.sessionId = record.sessionId
  | .recordSessionIfCurrent _ record, .resume binding =>
    record.info.state.isTerminal && binding.sessionId = record.sessionId
  | .clearInitialInput sessionId, .session existing => existing.sessionId = sessionId
  | .replaceSessionMetadata sessionId _ _, .session existing => existing.sessionId = sessionId
  | .removeSession sessionId, .session existing => existing.sessionId = sessionId
  | .recordResume binding, .resume existing => existing.sessionId = binding.sessionId
  | .removeResume sessionId, .resume existing => existing.sessionId = sessionId
  | .recordWorktree binding, .worktree existing => existing.sameKey binding
  | .removeWorktreeSession sessionId, .worktree existing => existing.sessionId = sessionId
  | .removeWorktreeBinding binding, .worktree existing => existing.sameKey binding
  | .mutateProject gitCommonDir _, .project existing => existing.gitCommonDir = gitCommonDir
  | .recordProject record, .project existing => existing.gitCommonDir = record.gitCommonDir
  | .removeProject gitCommonDir, .project existing => existing.gitCommonDir = gitCommonDir
  | _, _ => false

/-- The closure of a project mutation gives a record of the project it is
called for. -/
def Mutation.KeepsKey : Mutation → Prop
  | .mutateProject gitCommonDir mutate => ∀ current updated, mutate current = some updated →
      updated.gitCommonDir = gitCommonDir
  | _ => True

/-- The records a mutation is not about, in the order they are written. -/
def StoreRecords.others (keyed : Record → Bool) (stored : StoreRecords) : List Record :=
  stored.toList.filter fun record => !keyed record

theorem others_owned (keyed : Record → Bool) (records : Records) :
      records.owned.others keyed = (othersOf .resume keyed records.resume).map .resume ++
      ((othersOf .worktree keyed records.worktrees).map .worktree ++
        ((othersOf .project keyed records.projects).map .project ++
          (othersOf .session keyed records.sessions).map .session)) := by
  simp only [StoreRecords.others, StoreRecords.toList, owned, filter_append]
  congr 1
  · exact filter_map
  · congr 1
    · exact filter_map
    · congr 1 <;> exact filter_map

section Others

variable {keyed : Record → Bool}

theorem others_congr {resume worktrees projects sessions}
    (hresume : othersOf .resume keyed resume = othersOf .resume keyed records.resume)
    (hworktrees : othersOf .worktree keyed worktrees = othersOf .worktree keyed records.worktrees)
    (hprojects : othersOf .project keyed projects = othersOf .project keyed records.projects)
    (hsessions : othersOf .session keyed sessions = othersOf .session keyed records.sessions) :
    (mk resume worktrees projects sessions).owned.others keyed = records.owned.others keyed := by
  simp only [others_owned, hresume, hworktrees, hprojects, hsessions]

theorem others_storeSession (record : SessionRecord)
    (hsession : ∀ existing : SessionRecord, existing.sessionId = record.sessionId →
    keyed (.session existing)) (hresume : record.info.state.isTerminal → ∀ binding : ResumeBinding,
      binding.sessionId = record.sessionId → keyed (.resume binding)) :
    (records.storeSession record).owned.others keyed = records.owned.others keyed := by
  have hdropped : othersOf .resume keyed (dropResumeOfTerminalSession record records.resume) =
      othersOf .resume keyed records.resume := by
    unfold dropResumeOfTerminalSession
    split
    · rename_i hterminal
      exact retain_frame fun binding hbinding => hresume hterminal binding (by simpa using hbinding)
    · rfl
  have hmerged : ∀ existing : Option SessionRecord,
      (existing.elim record fun existing => mergeSession existing record).sessionId =
      record.sessionId := by
    intro existing
    cases existing with
    | none => rfl
    | some existing => exact (mergeSession_runtime existing record).sessionId
  have hupserted : othersOf .session keyed (records.storeSession record).sessions =
      othersOf .session keyed records.sessions := by
    simp only [storeSession]
    refine upsert_frame (fun existing hexisting => ?_) fun existing => ?_
    · exact hsession existing (by simpa using hexisting)
    · exact hsession _ (hmerged existing)
  exact others_congr hdropped rfl rfl hupserted

end Others

/-- **A mutation changes the records it is about and no others.** -/
theorem Rewrites.frame (h : Rewrites mutation records next) (hkey : mutation.KeepsKey) :
    next.owned.others mutation.keyed = records.owned.others mutation.keyed := by
  cases h with
  | recordSession record | recordSessionIfCurrent record =>
    refine others_storeSession record
      (fun existing hexisting => ?_) fun hterminal binding hbinding => ?_
    · simpa [Mutation.keyed] using hexisting
    · simpa [Mutation.keyed, hterminal] using hbinding
  | clearInitialInput sessionId =>
    refine others_congr rfl rfl rfl
      (edit_frame (p := SessionRecord.marked sessionId)
      (fun record hrecord => ?_) fun record hrecord => ?_)
    · exact (Bool.and_eq_true_iff.mp hrecord).1
    · exact (Bool.and_eq_true_iff.mp hrecord).1
  | replaceSessionMetadata sessionId metadata updatedAt =>
    exact others_congr rfl rfl rfl
      (edit_frame (p := fun record : SessionRecord => record.sessionId = sessionId)
      (fun _ h => h) fun _ h => h)
  | removeSession sessionId =>
    exact others_congr rfl rfl rfl
      (retain_frame fun record hrecord => decide_eq_true (by simpa using hrecord))
  | recordResume binding replacement hreplacement =>
    refine others_congr (upsert_frame (fun record hrecord => hrecord) fun _ => ?_) rfl rfl rfl
    exact decide_eq_true hreplacement
  | removeResume sessionId =>
    exact others_congr (retain_frame fun record hrecord => decide_eq_true (by simpa using hrecord))
      rfl rfl rfl
  | recordWorktree binding =>
    refine others_congr rfl (upsert_frame (fun record hrecord => hrecord) fun _ => ?_) rfl rfl
    show binding.sameKey binding
    simp [WorktreeBinding.sameKey]
  | removeWorktreeSession sessionId =>
    exact others_congr rfl
      (retain_frame fun record hrecord => decide_eq_true (by simpa using hrecord)) rfl rfl
  | removeWorktreeBinding binding =>
    refine others_congr rfl (retain_frame fun record hrecord => ?_) rfl rfl
    show record.sameKey binding
    simpa using hrecord
  | mutateProject gitCommonDir mutate updated hupdated =>
    obtain ⟨current, hcurrent⟩ := hupdated
    refine others_congr rfl rfl (upsert_frame (fun record hrecord => hrecord) fun _ => ?_) rfl
    exact decide_eq_true (hkey current updated hcurrent)
  | recordProject record =>
    refine others_congr rfl rfl (upsert_frame (fun record hrecord => hrecord) fun _ => ?_) rfl
    exact decide_eq_true rfl
  | removeProject gitCommonDir =>
    exact others_congr rfl rfl
      (retain_frame fun record hrecord => decide_eq_true (by simpa using hrecord)) rfl

end Pohunek.Metadata
