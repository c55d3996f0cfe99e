/-
# The write coordinator

`WriteCoordinator` of `crates/session-worker/src/input.rs` as a system of
tasks. A call is one task; it runs from one `await` or lock to the next, and
any task that can move may move (`step`). A `Phase` is where a task is in
`execute_plan`, `execute_locked`, `write_counted` and after them; `Phase.next`
is the program of a task, with every way the writer can answer. A lock is
taken and released where the guard of the source lives: `Task.holdsPlan`,
`holdsExecution` and `holdsWriter` say in which phases it does.

A stall may expire whenever its lock is awaited, and a lock is given to any of
its waiters. A call is not abandoned by its caller here; the writer's own
task may panic.

`Task.epoch` and `Coordinator.epoch` count the resets of the namespace, and
`Coordinator.completions` has the tasks whose completion was recorded since
the last one. They are not in the source; no step reads them.
-/
import Pohunek.Input.Dedup
import Pohunek.Lib.Interleave
import Pohunek.Lib.Run

namespace Pohunek.Input

/-! ### Calls -/

inductive Request
  | control (namespaceId : String) (sequence : ℕ) (plan : InputPlan)
  | legacy (namespaceId : String) (plan : InputPlan)
  | stream (fragments : List InputFragment)
  | reply (fragment : InputFragment)
  deriving DecidableEq

/-- Where the loop over the fragments is: the fragment, the bytes accepted
before it and the mark read so far. -/
structure Progress where
  index : ℕ
  written : ℕ
  mark : Option ℕ
  deriving DecidableEq

inductive Phase
  /-- `lock_within(&self.locks.plans, ..)`. -/
  | waitingPlan
  /-- `lock_within(&self.locks.execution, ..)`. -/
  | waitingExecution (p : Progress)
  /-- The blocking task waits for the writer. -/
  | waitingWriter (p : Progress)
  /-- `write_counted`, with the bytes of the fragment accepted so far. -/
  | writing (p : Progress) (accepted : ℕ)
  /-- The blocking task has answered. -/
  | wrote (p : Progress) (accepted : ℕ) (error : Option IoError)
  /-- The blocking task has panicked; nobody learns how far it came. -/
  | crashed (p : Progress) (accepted : ℕ)
  /-- `sleep(fragment.delay_after)`. -/
  | delaying (p : Progress)
  /-- `execute_plan` has returned. -/
  | completing (result : Except InputError WriteReceipt)
  | sending (result : Except InputError WriteReceipt)
  /-- `wait_result`. -/
  | joining (sender : ℕ)
  | returned (result : Except InputError WriteReceipt)

inductive Move
  | planLocked
  | executionLocked
  | writerLocked (now : ℕ)
  /-- The stall of the awaited lock expires. -/
  | stalled
  /-- `write_within` answers `Ok(count)`. -/
  | accepted (count : ℕ)
  /-- `write_within` answers an error. -/
  | failed (error : IoError)
  | flushed (error : Option IoError)
  | panicked
  | resumed
  | woke
  | completed
  | sent
  | received

namespace Request

def fragments : Request → List InputFragment
  | control _ _ plan | legacy _ plan => plan.fragments
  | stream fragments => fragments
  | reply fragment => [fragment]

def plan : Request → Option InputPlan
  | control _ _ plan | legacy _ plan => some plan
  | stream _ | reply _ => none

/-- Whether the call is a control plan, which takes the plan lock. -/
def isPlan (r : Request) : Bool := r.plan.isSome

/-- The stall of the call; a stream is unbounded. -/
def bound (stall : Option Duration) : Request → Option Duration
  | stream _ => none
  | control _ _ _ | legacy _ _ | reply _ => stall

def bytes (r : Request) : List UInt8 := r.fragments.flatMap (·.bytes)

/-- The bytes of one fragment. -/
def fragment (r : Request) (index : ℕ) : List UInt8 := (r.fragments[index]?.map (·.bytes)).getD []

/-- `fragments.iter().map(|fragment| fragment.bytes.len()).sum()`. -/
def total (r : Request) : ℕ := (r.fragments.map (·.bytes.length)).sum

/-- The plan has run. -/
def finish (r : Request) (result : Except InputError WriteReceipt) : Phase :=
  if r.isPlan then .completing result else .returned result

/-- The head of the loop over the fragments. -/
def loop (r : Request) (p : Progress) : Phase :=
  if p.index < r.fragments.length then .waitingExecution p else r.finish (.ok ⟨p.mark⟩)

end Request

/-- The error of a fragment whose write failed. -/
def writeError (stall : Option Duration) (written total : ℕ) (error : IoError) : InputError :=
  if error.kind = .timedOut then
    match stall with
    | some stall => .stalled written total stall
    | none => .io error
  else .io error

/-- The program of a task: the phase after a move and the bytes the terminal
accepts in it. -/
def Phase.next (stall : Option Duration) (channel : ℕ → Option (Except StoredError WriteReceipt))
    (request : Request) : Phase → Move → Option (Phase × List UInt8)
  | waitingPlan, .planLocked => some (request.loop ⟨0, 0, none⟩, [])
  | waitingPlan, .stalled =>
    stall.map fun stall => (request.finish (.error (.stalled 0 request.total stall)), [])
  | waitingExecution p, .executionLocked => some (waitingWriter p, [])
  | waitingExecution p, .stalled =>
    stall.map fun stall => (request.finish (.error (.stalled p.written request.total stall)), [])
  | waitingWriter p, .writerLocked now =>
    -- the mark is read with the writer held, before the last fragment's write
    let mark := if p.index + 1 = request.fragments.length then some now else p.mark
    some (writing { p with mark := mark } 0, [])
  | writing p accepted, .accepted count =>
    let rest := (request.fragment p.index).drop accepted
    if rest = [] ∨ rest.length < count then none
    else if count = 0 then some (wrote p accepted (some ⟨.writeZero, "write zero"⟩), [])
    else some (writing p (accepted + count), rest.take count)
  | writing p accepted, .failed error =>
    if (request.fragment p.index).length ≤ accepted then none
    else if error.kind = .interrupted then some (writing p accepted, [])
    else some (wrote p accepted (some error), [])
  | writing p accepted, .flushed error =>
    if accepted < (request.fragment p.index).length then none else some (wrote p accepted error, [])
  | writing p accepted, .panicked => some (crashed p accepted, [])
  | wrote p accepted none, .resumed =>
    some (delaying { p with written := p.written + accepted }, [])
  | wrote p accepted (some error), .resumed =>
    some (request.finish (.error (writeError stall (p.written + accepted) request.total error)), [])
  | crashed _ _, .resumed => some (request.finish (.error .writerTask), [])
  | delaying p, .woke => some (request.loop { p with index := p.index + 1 }, [])
  | completing result, .completed => some (sending result, [])
  | sending result, .sent => some (returned result, [])
  | joining sender, .received => (channel sender).map fun result => (returned (joined result), [])
  | _, _ => none

/-! ### Tasks and locks -/

structure Task where
  request : Request
  /-- What the deduplication made of the call. -/
  action : Except InputError Action
  phase : Phase
  epoch : ℕ

namespace Task

/-- `_plan` lives from the plan lock to the end of `execute_plan`. -/
def holdsPlan (task : Task) : Bool :=
  task.request.isPlan && match task.phase with
    | .waitingExecution _ | .waitingWriter _ | .writing _ _ | .wrote _ _ _ | .crashed _
      _ | .delaying _ => true
    | _ => false

/-- `execution` lives from its lock to the end of the fragment's write. -/
def holdsExecution (task : Task) : Bool :=
  match task.phase with
  | .waitingWriter _ | .writing _ _ | .wrote _ _ _ | .crashed _ _ => true
  | _ => false

/-- The blocking task holds the writer while it writes. -/
def holdsWriter (task : Task) : Bool :=
  match task.phase with
  | .writing _ _ => true
  | _ => false

/-- The fragment the task writes. -/
def writes (task : Task) : ℕ :=
  match task.phase with
  | .writing p _ => p.index
  | _ => 0

end Task

/-- A byte the terminal accepted, with the task and the fragment it is of. -/
structure Accepted where
  task : ℕ
  fragment : ℕ
  byte : UInt8
  deriving DecidableEq

structure Coordinator where
  stall : Option Duration
  state : DedupState
  plans : Option ℕ
  execution : Option ℕ
  writer : Option ℕ
  /-- The bytes the terminal accepted, oldest first. -/
  terminal : List Accepted
  /-- The results sent on the calls' channels. -/
  channel : ℕ → Option (Except StoredError WriteReceipt)
  tasks : ℕ → Option Task
  nextTask : ℕ
  epoch : ℕ
  completions : List ℕ

inductive Event
  | call (request : Request)
  | move (task : ℕ) (m : Move)

namespace Coordinator

/-- `WriteCoordinator::new`. -/
def new (capacity : ℕ) (stall : Option Duration) : Except InputError Coordinator :=
  if capacity = 0 then .error .invalidCapacity
  else .ok ⟨stall, .new capacity, none, none, none, [], fun _ => none, fun _ => none, 0, 0, []⟩

variable (sha256 : List UInt8 → Digest)

/-- The part of a call under the state lock. -/
def dedupe (c : Coordinator) : Request → DedupState × Except InputError Action
  | .control namespaceId sequence plan =>
    c.state.dedupeControl sha256 namespaceId sequence plan c.nextTask
  | .legacy namespaceId plan => c.state.dedupeLegacy sha256 namespaceId plan c.nextTask
  | .stream _ | .reply _ => (c.state, .ok .execute)

/-- Whether a call resets the namespace. -/
def resets (c : Coordinator) : Request → Bool
  | .control namespaceId _ _ => !c.state.selected namespaceId .monotonic
  | .legacy namespaceId _ => !c.state.selected namespaceId .legacy
  | .stream _ | .reply _ => false

/-- Where a call goes after the state lock. -/
def entry (request : Request) : Except InputError Action → Phase
  | .error e => .returned (.error e)
  | .ok (.join sender) => .joining sender
  | .ok .execute => if request.isPlan then .waitingPlan else request.loop ⟨0, 0, none⟩

/-- The epoch a call belongs to. -/
def epochOf (c : Coordinator) (request : Request) : ℕ := if c.resets request then c.epoch + 1
    else c.epoch

/-- The task of a new call. -/
def entered (c : Coordinator) (request : Request) : Task :=
  let action := (c.dedupe sha256 request).2
  ⟨request, action, entry request action, c.epochOf request⟩

def start (c : Coordinator) (request : Request) : Coordinator :=
  { c with
    state := (c.dedupe sha256 request).1
    tasks := Function.update c.tasks c.nextTask (some (c.entered sha256 request))
    nextTask := c.nextTask + 1
    epoch := c.epochOf request
    completions := if c.resets request then [] else c.completions }

/-- `self.complete(&plan.write_id)`. -/
def stateAfter (task : Task) (s : DedupState) : DedupState :=
  match task.phase, task.request.plan with
  | .completing _, some plan => s.complete sha256 plan.writeId
  | _, _ => s

def completionsAfter (t : ℕ) (task : Task) (completions : List ℕ) : List ℕ :=
  match task.phase, task.request.plan with
  | .completing _, some _ => completions ++ [t]
  | _, _ => completions

/-- `sender.send(Some(stored))`. -/
def channelAfter (t : ℕ) (task : Task) (channel : ℕ → Option (Except StoredError WriteReceipt)) :
    ℕ → Option (Except StoredError WriteReceipt) :=
  match task.phase with
  | .sending result => Function.update channel t (some (stored result))
  | _ => channel

def step (c : Coordinator) : Event → Option Coordinator
  | .call request => some (c.start sha256 request)
  | .move t m => do
    let task ← c.tasks t
    let (phase, bytes) ← task.phase.next (task.request.bound c.stall) c.channel task.request m
    let task' := { task with phase := phase }
    let plans ← Interleave.relock c.plans t task.holdsPlan task'.holdsPlan
    let execution ← Interleave.relock c.execution t task.holdsExecution task'.holdsExecution
    let writer ← Interleave.relock c.writer t task.holdsWriter task'.holdsWriter
    return { c with
      state := stateAfter sha256 task c.state
      plans := plans
      execution := execution
      writer := writer
      terminal := c.terminal ++ bytes.map (⟨t, task.writes, ·⟩)
      channel := channelAfter t task c.channel
      tasks := Function.update c.tasks t (some task')
      completions := completionsAfter t task c.completions }

/-- The step relation. -/
def Step (c : Coordinator) (e : Event) (d : Coordinator) : Prop := c.step sha256 e = some d

/-- What a move of a task does. -/
structure Moved (c : Coordinator) (t : ℕ) (m : Move) (task : Task) (phase : Phase) (bytes : List UInt8)
    (d : Coordinator) : Prop where
  known : c.tasks t = some task
  next : task.phase.next (task.request.bound c.stall) c.channel task.request m = some (phase, bytes)
  plans : Interleave.relock c.plans t task.holdsPlan { task with phase := phase }.holdsPlan = some d.plans
  execution : Interleave.relock c.execution t task.holdsExecution
    { task with phase := phase }.holdsExecution = some d.execution
  writer : Interleave.relock c.writer t task.holdsWriter { task with phase := phase }.holdsWriter =
    some d.writer
  terminal : d.terminal = c.terminal ++ bytes.map (⟨t, task.writes, ·⟩)
  tasks : d.tasks = Function.update c.tasks t (some { task with phase := phase })
  state : d.state = stateAfter sha256 task c.state
  channel : d.channel = channelAfter t task c.channel
  stall : d.stall = c.stall
  nextTask : d.nextTask = c.nextTask
  epoch : d.epoch = c.epoch
  completions : d.completions = completionsAfter t task c.completions

variable {sha256} {c d : Coordinator}

/-- A move records the completion of its task, or leaves the state alone. -/
theorem completion_cases (sha256 : List UInt8 → Digest) (t : ℕ) (task : Task) (s : DedupState)
    (completions : List ℕ) :
    (∃ result plan, task.phase = .completing result ∧ task.request.plan = some plan ∧
      stateAfter sha256 task s = s.complete sha256 plan.writeId ∧
      completionsAfter t task completions = completions ++ [t]) ∨
    (stateAfter sha256 task s = s ∧ completionsAfter t task completions = completions) := by
  unfold stateAfter completionsAfter
  cases task.phase with
  | completing result =>
    cases task.request.plan with
    | none => exact .inr ⟨rfl, rfl⟩
    | some plan => exact .inl ⟨result, plan, rfl, rfl, rfl, rfl⟩
  | _ => exact .inr ⟨rfl, rfl⟩

theorem channelAfter_cases (t : ℕ) (task : Task)
    (channel : ℕ → Option (Except StoredError WriteReceipt)) :
    (∃ result, task.phase = .sending result ∧
      channelAfter t task channel = Function.update channel t (some (stored result))) ∨
    channelAfter t task channel = channel := by
  unfold channelAfter
  cases task.phase with
  | sending result => exact .inl ⟨result, rfl, rfl⟩
  | _ => exact .inr rfl

/-- A step is a call or a move of one task. -/
theorem step_cases {e : Event} (h : c.Step sha256 e d) :
    (∃ request, e = .call request ∧ d = c.start sha256 request) ∨
    ∃ t m task phase bytes, e = .move t m ∧ c.Moved sha256 t m task phase bytes d := by
  cases e with
  | call request => exact .inl ⟨request, rfl, (Option.some.inj h).symm⟩
  | move t m =>
    refine .inr ?_
    simp only [Step, step, Option.bind_eq_bind, Option.bind_eq_some_iff, Option.pure_def,
      Option.some.injEq, Prod.exists] at h
    obtain ⟨task, htask, phase, bytes, hnext, plans, hplans, execution, hexecution, writer, hwriter,
      rfl⟩ := h
    exact ⟨t, m, task, phase, bytes, rfl,
      ⟨htask, hnext, hplans, hexecution, hwriter, rfl, rfl, rfl, rfl, rfl, rfl, rfl, rfl⟩⟩

namespace Moved

variable {t : ℕ} {m : Move} {task : Task} {phase : Phase} {bytes : List UInt8}

section

variable (h : c.Moved sha256 t m task phase bytes d)
include h

theorem tasks_self :
    d.tasks t = some { task with phase := phase } := by
  rw [h.tasks]
  exact Function.update_self ..

theorem tasks_other {u : ℕ} (hu : u ≠ t) :
    d.tasks u = c.tasks u := by
  rw [h.tasks]
  exact Function.update_of_ne hu ..

/-- A task after a move is the one that moved, or as it was. -/
theorem cases {u : ℕ} {task' : Task} (hu : d.tasks u = some task') :
    (u = t ∧ task' = { task with phase := phase }) ∨ (u ≠ t ∧ c.tasks u = some task') := by
  by_cases hut : u = t
  · rw [hut, h.tasks_self] at hu
    exact .inl ⟨hut, (Option.some.inj hu).symm⟩
  · rw [h.tasks_other hut] at hu
    exact .inr ⟨hut, hu⟩

end

end Moved

theorem start_self (c : Coordinator) (r : Request) :
    (c.start sha256 r).tasks c.nextTask = some (c.entered sha256 r) :=
  Function.update_self ..

theorem start_other (c : Coordinator) (r : Request) {t : ℕ} (ht : t ≠ c.nextTask) :
    (c.start sha256 r).tasks t = c.tasks t :=
  Function.update_of_ne ht ..

/-- A task after a call is the new one, or as it was. -/
theorem start_cases (c : Coordinator) (r : Request) {t : ℕ} {task : Task}
    (ht : (c.start sha256 r).tasks t = some task) :
    (t = c.nextTask ∧ task = c.entered sha256 r) ∨ (t ≠ c.nextTask ∧ c.tasks t = some task) := by
  by_cases hnew : t = c.nextTask
  · rw [hnew, start_self] at ht
    exact .inl ⟨hnew, (Option.some.inj ht).symm⟩
  · rw [start_other c r hnew] at ht
    exact .inr ⟨hnew, ht⟩

end Coordinator

/-- A run of the coordinator from its start. -/
def CoordinatorRun (sha256 : List UInt8 → Digest) (capacity : ℕ) (stall : Option Duration)
    (tr : List Event) (c : Coordinator) : Prop :=
  ∃ start, Coordinator.new capacity stall = .ok start ∧
  Runs.Run (Coordinator.Step sha256) start tr c

/-- The coordinator after the events of a trace. -/
def Coordinator.play (sha256 : List UInt8 → Digest) (capacity : ℕ) (stall : Option Duration)
    (tr : List Event) : Option Coordinator :=
  match Coordinator.new capacity stall with
  | .ok start => Runs.steps (Coordinator.step sha256) start tr
  | .error _ => none

theorem Coordinator.play_run {sha256 : List UInt8 → Digest} {capacity : ℕ} {stall : Option Duration}
    {tr : List Event} {c : Coordinator} (h : Coordinator.play sha256 capacity stall tr = some c) :
    CoordinatorRun sha256 capacity stall tr c := by
  unfold Coordinator.play at h
  split at h
  · rename_i start hnew
    exact ⟨start, hnew, Runs.steps_run tr h⟩
  · cases h

end Pohunek.Input
