/-
# One handle of the metadata store, used by many threads

`Store` of `crates/daemon/src/store/mod.rs`: readers and mutators of one
process that share the file, the memo and the write lock, and other processes
that replace the file at any time. A thread goes through its call step by step
as the code does: the memo is cloned before the file is read, the decode is
installed if the memo is still the cloned one, a mutator holds the write lock
from its first step to its last and installs its snapshot after the rename.

The memo is an `Arc`; `ptr_eq` compares the numbers given to them in the order
they are made. `Watch` is what a trace says of one call: the contents the file
had since the call began, and the content the call read.
-/
import Pohunek.Lib.Interleave
import Pohunek.Metadata.Mutation

namespace Pohunek.Metadata

open Fallible Interleave Runs

/-! ### Calls -/

inductive Call
  | load
  | mutate (mutation : Mutation)
  | setAside (contentHash : String) (acceptPinLoss : Bool)

/-- Whether the call takes `write_lock`. -/
def Call.locks : Call → Bool
  | .load => false
  | .mutate _ | .setAside .. => true

/-- Whether the call reads by `Store::snapshot`. -/
def Call.snapshots : Call → Bool
  | .load | .mutate _ => true
  | .setAside .. => false

/-- An `Option<Arc<Snapshot>>`, each `Arc` with a number of its own. -/
abbrev Memo := Option (ℕ × Snapshot)

/-- Where a thread is. -/
inductive Phase
  | idle
  | started (call : Call)
  | cloned (call : Call) (remembered : Memo)
  | fetched (call : Call) (remembered : Memo) (content : Option Text)
  | loaded (mutation : Mutation) (snapshot : Snapshot)
  | committed (body : Text) (records : Records) (rejected : List RejectedLine)
      (answer : Answer) (synced : Bool)

/-- Whether the thread has the guard of `write_lock`. -/
def Phase.guarded : Phase → Bool
  | .idle => false
  | .started call | .cloned call _ | .fetched call _ _ => call.locks
  | .loaded .. | .committed .. => true

/-- What the file system answers to a replacement. -/
inductive Replacement
  | beforeCommit (message : String)
  | committed (synced : Bool)
  deriving DecidableEq

/-- The next thing a thread does, with what the file system answers; the
messages are those of failures. -/
inductive Action
  | start (call : Call)
  | clone
  | read (failure : Option String)
  | finish
  | write (quarantine : Option String) (replacement : Replacement)
  | remember

inductive Output
  | silent
  | snapshot (snapshot : Snapshot)
  | answered (answer : Answer) (synced : Bool)
  | failed (error : SetAsideError)
  | wrote (call : Call) (body : Text)

/-- The body that was renamed over the file. -/
def Output.body : Output → Option Text
  | .wrote _ body => some body
  | _ => none

/-- What the threads share, apart from the lock. -/
structure Shared where
  file : Option Text
  memo : Memo
  allocated : ℕ

/-- The end of `Store::snapshot`, from the cloned memo and the content. -/
def snapshotOf (S : Serde) (shared : Shared) (remembered : Memo) (content : Option Text) :
    Except StoreError (Snapshot × Shared) :=
  match content with
  | none => .ok (.empty, shared)
  | some content =>
    match remembered.filter (·.2.content = content) with
    | some (_, snapshot) => .ok (snapshot, shared)
    | none =>
      match decode S content with
      | .error error => .error error
      | .ok (stored, rejected) =>
        let snapshot := ⟨content, .fromStoreRecords stored, rejected⟩
        -- a snapshot that a writer installed in the meantime stays
        if shared.memo.map Prod.fst = remembered.map Prod.fst then
          .ok (snapshot, { shared with
            memo := some (shared.allocated, snapshot), allocated := shared.allocated + 1 })
        else .ok (snapshot, shared)

/-- `Store::emit` with `commit_body`. -/
def commit (S : Serde) (records : Records) (rejected : List Text) (replacement : Replacement) :
    Except StoreError (Text × Records × Bool) := do
  let (body, written) ← emit S records rejected
  checkBodySize body
  match replacement with
  | .beforeCommit message => .error (.io message)
  | .committed synced => return (body, written, synced)

/-- One step of a thread. -/
def advance (S : Serde) (shared : Shared) : Phase → Action → Option (Phase × Shared × Output)
  | .idle, .start call => some (.started call, shared, .silent)
  | .started call, .clone =>
    if call.snapshots then some (.cloned call shared.memo, shared, .silent) else none
  | .started call, .read failure =>
    if call.snapshots then none
    else
      match failure with
      | some message => some (.idle, shared, .failed (.failed (.io message)))
      | none => some (.fetched call none shared.file, shared, .silent)
  | .cloned call remembered, .read failure =>
    match failure with
    | some message => some (.idle, shared, .failed (.failed (.io message)))
    | none => some (.fetched call remembered shared.file, shared, .silent)
  | .fetched call remembered content, .finish =>
    match call with
    | .setAside .. => none
    | .load =>
      match snapshotOf S shared remembered content with
      | .error error => some (.idle, shared, .failed (.failed error))
      | .ok (snapshot, shared) => some (.idle, shared, .snapshot snapshot)
    | .mutate mutation =>
      match snapshotOf S shared remembered content with
      | .error error => some (.idle, shared, .failed (.failed error))
      | .ok (snapshot, shared) => some (.loaded mutation snapshot, shared, .snapshot snapshot)
  | .loaded mutation snapshot, .write _ replacement =>
    match mutation.plan snapshot.records with
    | .keep answer => some (.idle, shared, .answered answer true)
    | .rewrite records answer =>
      match commit S records (snapshot.rejected.map (·.text)) replacement with
      | .error error => some (.idle, shared, .failed (.failed error))
      | .ok (body, written, synced) =>
        some (.committed body written snapshot.rejected answer synced,
          { shared with file := some body }, .wrote (.mutate mutation) body)
  | .fetched (.setAside contentHash acceptPinLoss) _ content, .write quarantine replacement =>
    match setAside S contentHash acceptPinLoss content with
    | .error error => some (.idle, shared, .failed error)
    | .ok (records, kept) =>
      match quarantine with
      | some message => some (.idle, shared, .failed (.failed (.io message)))
      | none =>
        match commit S records (kept.map (·.text)) replacement with
        | .error error => some (.idle, shared, .failed (.failed error))
        | .ok (body, _, _) =>
          some (.idle, { shared with file := some body },
            .wrote (.setAside contentHash acceptPinLoss) body)
  | .committed body records rejected answer synced, .remember =>
    let memo := (Metadata.remember S body records rejected).map (shared.allocated, ·)
    some (.idle, { shared with memo, allocated := shared.allocated + 1 }, .answered answer synced)
  | _, _ => none

/-! ### The system -/

structure System where
  shared : Shared
  writeLock : Option ℕ
  phases : ℕ → Phase

def System.init (file : Option Text) : System := ⟨⟨file, none, 0⟩, none, fun _ => .idle⟩

inductive Input
  | act (thread : ℕ) (action : Action)
  /-- Another process puts this content in place of the file. -/
  | replace (content : Option Text)

/-- One step of the system; `none` where the step cannot be taken. -/
def step (S : Serde) (s : System) : Input → Option (System × Output)
  | .act thread action => do
    let (phase, shared, output) ← advance S s.shared (s.phases thread) action
    let writeLock ← relock s.writeLock thread (s.phases thread).guarded phase.guarded
    return (⟨shared, writeLock, Function.update s.phases thread phase⟩, output)
  | .replace content => some ({ s with shared := { s.shared with file := content } }, .silent)

abbrev Event := Label Input Output

/-! ### What a step does -/

/-- Actions that can end a call before it wrote. -/
def Action.MayFail (action : Action) : Prop :=
  (∃ message, action = .read (some message)) ∨ action = .finish ∨
    ∃ quarantine replacement, action = .write quarantine replacement

/-- A thread in a call that has not written. -/
def Phase.Pending (phase : Phase) : Prop :=
  phase ≠ .idle ∧ ∀ body records rejected answer synced,
    phase ≠ .committed body records rejected answer synced

/-- The steps of a thread. -/
inductive Advances (S : Serde) (shared : Shared) : Phase → Action → Phase → Shared → Output → Prop
  | start (call : Call) : Advances S shared .idle (.start call) (.started call) shared .silent
  | clone (call : Call) (hcall : call.snapshots) :
      Advances S shared (.started call) .clone (.cloned call shared.memo) shared .silent
  | read (call : Call) (remembered : Memo) (phase : Phase)
      (hphase : phase = .cloned call remembered ∨ phase = .started call ∧ remembered = none) :
      Advances S shared phase (.read none) (.fetched call remembered shared.file) shared .silent
  | stop (phase : Phase) (action : Action) (output : Output) (hphase : phase.Pending)
      (haction : action.MayFail)
      (houtput : (∃ error, output = .failed error) ∨ phase.guarded ∧ ∃ answer,
      output = .answered answer true) : Advances S shared phase action .idle shared output
  | load (call : Call) (remembered : Memo) (content : Option Text)
      (phase : Phase) (snapshot : Snapshot)
      (shared' : Shared)
      (hsnapshot : snapshotOf S shared remembered content = .ok (snapshot, shared'))
      (hphase : call = .load ∧ phase = .idle ∨ ∃ mutation, call = .mutate mutation ∧
      phase = .loaded mutation snapshot) :
      Advances S shared (.fetched call remembered content) .finish phase shared'
      (.snapshot snapshot)
  | write (mutation : Mutation) (snapshot : Snapshot) (quarantine : Option String)
      (replacement : Replacement)
      (records written : Records) (answer : Answer) (body : Text) (synced : Bool)
      (hplan : mutation.plan snapshot.records = .rewrite records answer)
      (hemit : emit S records (snapshot.rejected.map (·.text)) = .ok (body, written)) :
      Advances S shared (.loaded mutation snapshot) (.write quarantine replacement)
        (.committed body written snapshot.rejected answer synced) { shared with file := some body }
        (.wrote (.mutate mutation) body)
  | setAside (contentHash : String) (acceptPinLoss : Bool) (remembered : Memo)
      (content : Option Text)
      (quarantine : Option String) (replacement : Replacement) (records written : Records)
      (kept : List RejectedLine)
      (body : Text)
      (hkept : Metadata.setAside S contentHash acceptPinLoss content = .ok (records, kept))
      (hemit : emit S records (kept.map (·.text)) = .ok (body, written)) :
      Advances S shared (.fetched (.setAside contentHash acceptPinLoss) remembered content)
        (.write quarantine replacement) .idle { shared with file := some body }
        (.wrote (.setAside contentHash acceptPinLoss) body)
  | remember (body : Text) (records : Records) (rejected : List RejectedLine)
      (answer : Answer) (synced : Bool) :
      Advances S shared (.committed body records rejected answer synced) .remember .idle
        { shared with
          memo := (Metadata.remember S body records rejected).map (shared.allocated, ·)
          allocated := shared.allocated + 1 }
        (.answered answer synced)

variable {S : Serde}

theorem commit_ok {records written : Records} {rejected : List Text} {replacement : Replacement}
    {body : Text} {synced : Bool}
    (h : commit S records rejected replacement = .ok (body, written, synced)) :
    emit S records rejected = .ok (body, written) := by
  obtain ⟨⟨body', written'⟩, hemit, h⟩ := bind_ok_iff.mp h
  obtain ⟨-, -, h⟩ := bind_ok_iff.mp h
  cases replacement with
  | beforeCommit message => cases h
  | committed synced' =>
    cases pure_ok_iff.mp h
    exact hemit

variable {shared shared' : Shared}

theorem advance_eq_some {phase phase' : Phase} {action : Action} {output : Output}
    (h : advance S shared phase action = some (phase', shared', output)) :
    Advances S shared phase action phase' shared' output := by
  revert h
  fun_cases advance S shared phase action <;> rintro ⟨⟩
  · exact .start _
  next hcall => exact .clone _ hcall
  -- a read, without the memo and with it
  · exact .stop _ _ _ ⟨nofun, nofun⟩ (.inl ⟨_, rfl⟩) (.inl ⟨_, rfl⟩)
  · exact .read _ _ _ (.inr ⟨rfl, rfl⟩)
  · exact .stop _ _ _ ⟨nofun, nofun⟩ (.inl ⟨_, rfl⟩) (.inl ⟨_, rfl⟩)
  · exact .read _ _ _ (.inl rfl)
  -- the end of a snapshot
  · exact .stop _ _ _ ⟨nofun, nofun⟩ (.inr (.inl rfl)) (.inl ⟨_, rfl⟩)
  next hsnapshot => exact .load _ _ _ _ _ _ hsnapshot (.inl ⟨rfl, rfl⟩)
  · exact .stop _ _ _ ⟨nofun, nofun⟩ (.inr (.inl rfl)) (.inl ⟨_, rfl⟩)
  next hsnapshot => exact .load _ _ _ _ _ _ hsnapshot (.inr ⟨_, rfl, rfl⟩)
  -- a mutation
  · exact .stop _ _ _ ⟨nofun, nofun⟩ (.inr (.inr ⟨_, _, rfl⟩)) (.inr ⟨rfl, _, rfl⟩)
  · exact .stop _ _ _ ⟨nofun, nofun⟩ (.inr (.inr ⟨_, _, rfl⟩)) (.inl ⟨_, rfl⟩)
  next hplan _ _ _ hcommit => exact .write _ _ _ _ _ _ _ _ _ hplan (commit_ok hcommit)
  -- lines set aside
  · exact .stop _ _ _ ⟨nofun, nofun⟩ (.inr (.inr ⟨_, _, rfl⟩)) (.inl ⟨_, rfl⟩)
  · exact .stop _ _ _ ⟨nofun, nofun⟩ (.inr (.inr ⟨_, _, rfl⟩)) (.inl ⟨_, rfl⟩)
  · exact .stop _ _ _ ⟨nofun, nofun⟩ (.inr (.inr ⟨_, _, rfl⟩)) (.inl ⟨_, rfl⟩)
  next haside _ _ _ hcommit => exact .setAside _ _ _ _ _ _ _ _ _ _ haside (commit_ok hcommit)
  · exact .remember _ _ _ _ _

/-- Where the end of `Store::snapshot` has its snapshot from. -/
theorem snapshotOf_ok {remembered : Memo} {content : Option Text} {snapshot : Snapshot}
    (h : snapshotOf S shared remembered content = .ok (snapshot, shared')) :
    shared'.file = shared.file ∧ (shared'.memo = shared.memo ∨ ∃ id, shared'.memo = some (id, snapshot)) ∧
      ((content = none ∧ snapshot = .empty) ∨ (∃ id, remembered = some (id, snapshot) ∧
        content = some snapshot.content) ∨
        ∃ text stored rejected, content = some text ∧ decode S text = .ok (stored, rejected) ∧
          snapshot = ⟨text, .fromStoreRecords stored, rejected⟩) := by
  revert h
  fun_cases snapshotOf S shared remembered content <;> intro h <;>
    try obtain ⟨rfl, rfl⟩ := Prod.mk.inj (Except.ok.inj h)
  · exact ⟨rfl, .inl rfl, .inl ⟨rfl, rfl⟩⟩
  next id found hfound =>
    obtain ⟨hremembered, hsame⟩ := Option.filter_eq_some_iff.mp hfound
    exact ⟨rfl, .inl rfl, .inr (.inl ⟨id, hremembered, by rw [of_decide_eq_true hsame]⟩)⟩
  · cases h
  next hdecode _ _ => exact ⟨rfl, .inr ⟨_, rfl⟩, .inr (.inr ⟨_, _, _, rfl, hdecode, rfl⟩)⟩
  next hdecode _ _ => exact ⟨rfl, .inl rfl, .inr (.inr ⟨_, _, _, rfl, hdecode, rfl⟩)⟩

/-- The steps of the system. -/
inductive Moves (S : Serde) (s : System) : Event → System → Prop
  | act (thread : ℕ) (action : Action) (output : Output) (phase : Phase)
      (shared : Shared) (writeLock : Option ℕ)
      (hadvances : Advances S s.shared (s.phases thread) action phase shared output)
      (hlock : relock s.writeLock thread (s.phases thread).guarded phase.guarded = some writeLock) :
      Moves S s ⟨.act thread action, output⟩
      ⟨shared, writeLock, Function.update s.phases thread phase⟩
  | replace (content : Option Text) :
      Moves S s ⟨.replace content, .silent⟩ { s with shared := { s.shared with file := content } }

theorem StepOf.moves {s t : System} {event : Event} (h : StepOf (step S) s event t) :
    Moves S s event t := by
  obtain ⟨call, answer⟩ := event
  cases call with
  | act thread action =>
    obtain ⟨⟨phase, shared, output⟩, hadvance, h⟩ := Option.bind_eq_some_iff.mp h
    obtain ⟨writeLock, hlock, h⟩ := Option.bind_eq_some_iff.mp h
    cases h
    exact .act thread action _ phase shared writeLock (advance_eq_some hadvance) hlock
  | replace content =>
    cases h
    exact .replace content

/-! ### What a trace says of a call -/

/-- The latest call of a thread, as a trace shows it. -/
structure Watch where
  call : Option Call
  /-- The file. -/
  file : Option Text
  /-- What the file was since the call began, first to last. -/
  since : List (Option Text)
  /-- What the call read. -/
  fetched : Option Text
  /-- Another process replaced the file since the call began. -/
  foreign : Bool

/-- The file was replaced. -/
def Watch.put (w : Watch) (content : Option Text) :
    Watch := { w with file := content, since := w.since ++ [content] }

/-- The thread acts. -/
def Watch.act (w : Watch) : Action → Watch
  | .start call => { w with call := some call, since := [w.file], foreign := false }
  | .read none => { w with fetched := w.file }
  | _ => w

def Watch.after (thread : ℕ) (w : Watch) (event : Event) : Watch :=
  match event.call with
  | .replace content => { w.put content with foreign := true }
  | .act actor action =>
    let w := if actor = thread then w.act action else w
    match event.answer.body with
    | some body => w.put (some body)
    | none => w

def watch (thread : ℕ) (file : Option Text) (trace : List Event) : Watch :=
  trace.foldl (Watch.after thread) ⟨none, file, [file], none, false⟩

theorem watch_snoc (thread : ℕ) (file : Option Text) (trace : List Event) (event : Event) :
    watch thread file (trace ++ [event]) = (watch thread file trace).after thread event := by
  simp [watch, List.foldl_append]

end Pohunek.Metadata
