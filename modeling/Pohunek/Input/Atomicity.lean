/-
# Control plans are atomic and their progress is exact

What a task has written is a function of its phase (`Written`), whatever the
writer answered: the fragments before the current one, and of that one as
many bytes as `write_counted` counted. A phase is left with the same account
(`Written.next`), so a result tells the truth about it: `Ok` after the whole
plan, `Stalled` with the bytes that were accepted.

A byte is accepted only while its task has the writer, so the bytes of a
fragment stand together; a control plan has the plan lock from its first byte
to its last, so no other control plan comes between. `Sound` is the invariant,
`sound_run` its proof for every run.
-/
import Pohunek.Input.Ledger

namespace Pohunek.Input

open Interleave Coordinator List

/-! ### The bytes of a call -/

namespace Request

variable (r : Request)

/-- The bytes of the first `n` fragments, each with its fragment. -/
def upto (n : ℕ) : List (ℕ × UInt8) := (List.range n).flatMap fun i => (r.fragment i).map (i, ·)

theorem upto_succ (n : ℕ) : r.upto (n + 1) = r.upto n ++ (r.fragment n).map (n, ·) := by
  simp [upto, range_succ]

theorem upto_fragment {n : ℕ} {x : ℕ × UInt8} (h : x ∈ r.upto n) : x.1 < n := by
  obtain ⟨i, hi, hx⟩ := mem_flatMap.mp h
  obtain ⟨b, -, rfl⟩ := mem_map.mp hx
  exact mem_range.mp hi

theorem upto_bytes : ∀ n, (r.upto n).map Prod.snd = (r.fragments.take n).flatMap (·.bytes)
  | 0 => rfl
  | n + 1 => by
    have hsnd : ((r.fragment n).map (n, ·)).map Prod.snd = r.fragment n := by
      simp [Function.comp_def]
    have hlast : r.fragments[n]?.toList.flatMap (·.bytes) = r.fragment n := by
      unfold fragment
      cases r.fragments[n]? <;> simp
    rw [upto_succ, map_append, upto_bytes n, hsnd, take_add_one, flatMap_append, hlast]

theorem upto_prefix (n : ℕ) : (r.upto n).map Prod.snd <+: r.bytes := by
  rw [upto_bytes]
  refine ⟨(r.fragments.drop n).flatMap (·.bytes), ?_⟩
  rw [← flatMap_append, take_append_drop]
  rfl

theorem upto_all {n : ℕ} (h : r.fragments.length ≤ n) : (r.upto n).map Prod.snd = r.bytes := by
  rw [upto_bytes, take_of_length_le h]
  rfl

theorem total_eq : r.total = r.bytes.length := by
  simp [total, bytes, length_flatMap]

end Request

/-! ### What a task has written -/

/-- In the middle of a fragment. -/
structure Partly (r : Request) (p : Progress) (accepted : ℕ) (l : List (ℕ × UInt8)) : Prop where
  bytes : l = r.upto p.index ++ ((r.fragment p.index).take accepted).map (p.index, ·)
  written : p.written = (r.upto p.index).length
  index : p.index < r.fragments.length
  le : accepted ≤ (r.fragment p.index).length

/-- At the end, with a result: a start of the plan; all of it on success, and
as much as the error says on a stall. -/
structure Final (r : Request) (result : Except InputError WriteReceipt)
    (l : List (ℕ × UInt8)) : Prop where
  start : l.map Prod.snd <+: r.bytes
  whole : ∀ receipt, result = .ok receipt → l.map Prod.snd = r.bytes
  exact : ∀ written total stall, result = .error (.stalled written total stall) →
    l.length = written ∧ total = r.bytes.length
  kind : ∀ e, result = .error e → e.fromWrite

/-- What a task that writes has written, by its phase. -/
def Written (r : Request) (l : List (ℕ × UInt8)) : Phase → Prop
  | .waitingPlan => l = []
  | .waitingExecution p | .waitingWriter p => Partly r p 0 l
  | .writing p accepted | .crashed p accepted => Partly r p accepted l
  | .wrote p accepted error => Partly r p accepted l ∧
    (error = none → accepted = (r.fragment p.index).length)
  | .delaying p => l = r.upto (p.index + 1) ∧ p.written = l.length ∧ p.index < r.fragments.length
  | .completing result | .sending result | .returned result => Final r result l
  | .joining _ => False

section Written

variable {r : Request} {p : Progress} {accepted : ℕ} {l : List (ℕ × UInt8)}

section

variable (h : Partly r p accepted l)
include h

theorem Partly.length : l.length = p.written + accepted := by
  have hle := h.le
  rw [h.bytes, h.written]
  simp [hle]

theorem Partly.start : l.map Prod.snd <+: r.bytes := by
  have hl : l <+: r.upto (p.index + 1) := by
    rw [h.bytes, Request.upto_succ]
    exact (prefix_append_right_inj _).mpr ((List.take_prefix _ _).map _)
  exact (hl.map Prod.snd).trans (r.upto_prefix _)

theorem Partly.whole (hall : accepted = (r.fragment p.index).length) :
    l = r.upto (p.index + 1) := by
  rw [h.bytes, hall, take_length, Request.upto_succ]

/-- The writer accepts some more bytes. -/
theorem Partly.accept {count : ℕ}
    (hcount : count ≤ ((r.fragment p.index).drop accepted).length) :
    Partly r p (accepted + count)
    (l ++ (((r.fragment p.index).drop accepted).take count).map (p.index, ·)) where
  bytes := by
    rw [h.bytes, append_assoc, ← map_append, ← take_add]
  written := h.written
  index := h.index
  le := by
    rw [length_drop] at hcount
    have := h.le
    omega

end

/-- An error that is not a stall promises nothing but a start of the plan. -/
theorem Final.failed {error : InputError} (hstart : l.map Prod.snd <+: r.bytes)
    (hstall : ∀ written total stall, error ≠ .stalled written total stall)
    (hkind : error.fromWrite) : Final r (.error error) l := by
  refine ⟨hstart, fun receipt h => ?_, fun written total stall h => ?_, fun e h => ?_⟩
  · cases h
  · cases h
    exact absurd rfl (hstall written total stall)
  · cases h
    exact hkind

theorem Final.stalled (hstart : l.map Prod.snd <+: r.bytes) {written : ℕ}
    (hlen : l.length = written) (stall : Duration) :
    Final r (.error (.stalled written r.total stall)) l := by
  refine ⟨hstart, fun receipt h => ?_, fun written' total stall' h => ?_, fun e h => ?_⟩
  · cases h
  · cases h
    exact ⟨hlen, r.total_eq⟩
  · cases h
    rfl

theorem written_finish {result : Except InputError WriteReceipt} (h : Final r result l) :
    Written r l (r.finish result) := by
  unfold Request.finish
  split
  · exact h
  · exact h

theorem written_loop (hl : l = r.upto p.index) (hwritten : p.written = l.length) :
    Written r l (r.loop p) := by
  unfold Request.loop
  split
  · rename_i hindex
    refine ⟨?_, by rw [hwritten, hl], hindex, Nat.zero_le _⟩
    simpa using hl
  · rename_i hindex
    have hall : l.map Prod.snd = r.bytes := by rw [hl, r.upto_all (Nat.le_of_not_lt hindex)]
    refine written_finish ⟨?_, fun _ _ => hall, fun written total stall h => ?_, fun e h => ?_⟩
    · rw [hall]
    · cases h
    · cases h

theorem written_error (h : Partly r p accepted l) (stall : Option Duration) (error : IoError) :
    Final r (.error (writeError stall (p.written + accepted) r.total error)) l := by
  unfold writeError
  split
  · cases stall with
    | none => exact .failed h.start (fun _ _ _ he => by cases he) rfl
    | some stall => exact .stalled h.start h.length stall
  · exact .failed h.start (fun _ _ _ he => by cases he) rfl

theorem Written.start {phase : Phase} (h : Written r l phase) : l.map Prod.snd <+: r.bytes := by
  cases phase with
  | waitingPlan =>
    obtain rfl : l = [] := h
    exact nil_prefix
  | waitingExecution | waitingWriter | writing | crashed => exact Partly.start h
  | wrote => exact Partly.start h.1
  | delaying p =>
    obtain ⟨rfl, -⟩ := h
    exact r.upto_prefix _
  | completing | sending | returned => exact Final.start h
  | joining => exact h.elim

/-- **A move keeps the account of what the task has written.** -/
theorem Written.next {stall : Option Duration}
    {channel : ℕ → Option (Except StoredError WriteReceipt)} {phase phase' : Phase} {m : Move}
    {bytes : List UInt8} (hnext : phase.next stall channel r m = some (phase', bytes))
    (h : Written r l phase) {task : Task} (hphase : task.phase = phase) :
    Written r (l ++ bytes.map (task.writes, ·)) phase' := by
  revert hnext
  fun_cases Phase.next stall channel r phase m with
  | case1 =>
    -- the plan lock is taken
    rintro ⟨⟩
    obtain rfl : l = [] := h
    exact written_loop rfl rfl
  | case2 =>
    intro hnext
    obtain ⟨d, -, ⟨⟩⟩ := Option.map_eq_some_iff.mp hnext
    obtain rfl : l = [] := h
    have hnil : ([] : List (ℕ × UInt8)).map Prod.snd <+: r.bytes := nil_prefix
    exact written_finish (.stalled hnil rfl d)
  | case4 p =>
    -- the stall of the execution lock
    intro hnext
    obtain ⟨d, -, ⟨⟩⟩ := Option.map_eq_some_iff.mp hnext
    have hp : Partly r p 0 l := h
    simpa using written_finish (.stalled hp.start hp.length d)
  | case5 p =>
    rintro ⟨⟩
    have hp : Partly r p 0 l := h
    rw [map_nil, append_nil]
    exact ⟨hp.bytes, hp.written, hp.index, hp.le⟩
  | case8 p accepted count rest hrest =>
    -- the writer accepts bytes
    rintro ⟨⟩
    have hp : Partly r p accepted l := h
    have hcount : count ≤ rest.length := by
      have := not_or.mp hrest
      omega
    rw [show task.writes = p.index by simp [Task.writes, hphase]]
    exact hp.accept hcount
  | case7 p accepted | case11 p accepted =>
    rintro ⟨⟩
    have hp : Partly r p accepted l := h
    exact ⟨by simpa using hp, nofun⟩
  | case13 p accepted error hall =>
    -- the flush, after the last byte
    rintro ⟨⟩
    have hp : Partly r p accepted l := h
    refine ⟨by simpa using hp, fun _ => ?_⟩
    have := hp.le
    omega
  | case15 p accepted =>
    -- the fragment is done
    rintro ⟨⟩
    obtain ⟨hp, hall⟩ := (h : Partly r p accepted l ∧ _)
    simp only [map_nil, append_nil]
    exact ⟨hp.whole (hall rfl), hp.length.symm, hp.index⟩
  | case16 p accepted error =>
    rintro ⟨⟩
    obtain ⟨hp, -⟩ := (h : Partly r p accepted l ∧ _)
    simpa using written_finish (written_error hp stall error)
  | case17 p accepted =>
    rintro ⟨⟩
    have hp : Partly r p accepted l := h
    simpa using written_finish (.failed hp.start (fun _ _ _ he => by cases he) rfl)
  | case18 p =>
    rintro ⟨⟩
    obtain ⟨hl, hwritten, -⟩ := (h : l = r.upto (p.index + 1) ∧ p.written = l.length ∧ _)
    simp only [map_nil, append_nil]
    exact written_loop hl hwritten
  | case3 | case10 | case14 | case19 | case20 => rintro ⟨⟩; simpa [Written] using h
  | case21 => exact h.elim
  | _ => rintro ⟨⟩

end Written

/-- Bytes are accepted in the writing phase only, and the task stays there. -/
theorem next_bytes {stall : Option Duration}
    {channel : ℕ → Option (Except StoredError WriteReceipt)} {r : Request} {phase phase' : Phase}
    {m : Move} {bytes : List UInt8} (hnext : phase.next stall channel r m = some (phase', bytes))
    (hne : bytes ≠ []) :
    ∃ p accepted, phase = .writing p accepted ∧ phase' = .writing p (accepted + bytes.length) := by
  unfold Phase.next at hnext
  split at hnext
  case h_6 p accepted count =>
    simp only at hnext
    split at hnext
    · cases hnext
    · rename_i hrest
      split at hnext
      · cases hnext
        exact absurd rfl hne
      · cases hnext
        have hlen := (not_or.mp hrest).2
        refine ⟨p, accepted, rfl, ?_⟩
        rw [length_take, Nat.min_eq_left (Nat.le_of_not_lt hlen)]
  -- every other move accepts nothing
  all_goals
    refine absurd ?_ hne
    grind [Option.map_eq_some_iff]

/-! ### The tasks together -/

namespace Coordinator

/-- What the terminal accepted of a task. -/
def contribution (c : Coordinator) (t : ℕ) : List (ℕ × UInt8) :=
  (c.terminal.filter fun b => b.task = t).map fun b => (b.fragment, b.byte)

/-- Whether a task is a control plan. -/
def isPlan (c : Coordinator) (t : ℕ) : Bool := (c.tasks t).any fun task => task.request.isPlan

/-- The control plans the accepted bytes are of, byte by byte. -/
def planOwners (c : Coordinator) : List ℕ := (c.terminal.map (·.task)).filter c.isPlan

/-- The tasks and fragments the accepted bytes are of, byte by byte. -/
def fragmentOwners (c : Coordinator) : List (ℕ × ℕ) := c.terminal.map fun b => (b.task, b.fragment)

end Coordinator

/-- A task that writes has the account of its phase; another one has written
nothing and never will. -/
def Task.Accounted (task : Task) (l : List (ℕ × UInt8)) : Prop :=
  match task.action with
  | .ok .execute => Written task.request l task.phase
  | _ => l = [] ∧ ((∃ sender, task.phase = .joining sender) ∨ ∃ result,
    task.phase = .returned result)

/-- The coordinator between two steps. -/
structure Sound (c : Coordinator) : Prop where
  fresh : ∀ t, c.nextTask ≤ t → c.tasks t = none
  plans : Exact c.plans fun t => (c.tasks t).any Task.holdsPlan
  execution : Exact c.execution fun t => (c.tasks t).any Task.holdsExecution
  writer : Exact c.writer fun t => (c.tasks t).any Task.holdsWriter
  known : ∀ b ∈ c.terminal, b.task < c.nextTask
  accounted : ∀ t task, c.tasks t = some task → task.Accounted (c.contribution t)
  fragments : Blocks c.fragmentOwners
  inFragment : ∀ t task p accepted, c.tasks t = some task → task.phase = .writing p accepted →
    0 < accepted → c.fragmentOwners.getLast? = some (t, p.index)
  planBlocks : Blocks c.planOwners
  inPlan : ∀ t task, c.tasks t = some task → task.holdsPlan → c.contribution t ≠ [] →
    c.planOwners.getLast? = some t

section Sound

variable {sha256 : List UInt8 → Digest} {c d : Coordinator}

variable {task : Task} {p : Progress} {accepted : ℕ}

theorem holdsWriter_of_writing (h : task.phase = .writing p accepted) : task.holdsWriter := by
  unfold Task.holdsWriter
  rw [h]

theorem holdsPlan_of_writing (h : task.phase = .writing p accepted) :
    task.holdsPlan = task.request.isPlan := by
  unfold Task.holdsPlan
  rw [h, Bool.and_true]

/-! ### A call -/

/-- Where a call enters it has no guard, and it has written nothing. -/
theorem entry_quiet (request : Request) (action : Except InputError Action) (epoch : ℕ) :
    let task : Task := ⟨request, action, entry request action, epoch⟩
    task.holdsPlan = false ∧ task.holdsExecution = false ∧ task.holdsWriter = false ∧
    task.Accounted [] := by
  intro task
  have hentry : task.phase = entry request action := rfl
  cases action with
  | error e => simp [task, entry, Task.holdsPlan, Task.holdsExecution, Task.holdsWriter,
    Task.Accounted]
  | ok action =>
    cases action with
    | join sender =>
      simp [task, entry, Task.holdsPlan, Task.holdsExecution, Task.holdsWriter, Task.Accounted]
    | execute =>
      by_cases hplan : request.isPlan
      · simp [task, entry, hplan, Task.holdsPlan, Task.holdsExecution, Task.holdsWriter,
          Task.Accounted, Written]
      · -- a stream or a reply goes to its first fragment
        have haccount : task.Accounted [] := by
          have hloop : Written request [] (request.loop ⟨0, 0, none⟩) := written_loop rfl rfl
          simpa [task, Task.Accounted, entry, hplan] using hloop
        refine ⟨by simp [task, Task.holdsPlan, hplan], ?_, ?_, haccount⟩
        · simp only [Task.holdsExecution, hentry, entry, hplan, Request.loop, Request.finish]
          split_ifs <;> rfl
        · simp only [Task.holdsWriter, hentry, entry, hplan, Request.loop, Request.finish]
          split_ifs <;> rfl

theorem Sound.start (h : Sound c) (request : Request) : Sound (c.start sha256 request) := by
  have hnone : c.tasks c.nextTask = none := h.fresh _ (Nat.le_refl _)
  obtain ⟨hplan, hexecution, hwriter, haccount⟩ :=
    entry_quiet request (c.dedupe sha256 request).2 (c.epochOf request)
  have hself : (c.start sha256 request).tasks c.nextTask = _ := c.start_self request
  have hother : ∀ t, t ≠ c.nextTask → (c.start sha256 request).tasks t = c.tasks t :=
    fun _ => c.start_other request
  -- a question about a task that is false of the new one is answered as before
  have hany : ∀ ask : Task → Bool, ((c.start sha256 request).tasks c.nextTask).any ask = false →
      (fun t => ((c.start sha256 request).tasks t).any ask) = fun t => (c.tasks t).any ask := by
    intro ask hask
    funext t
    by_cases ht : t = c.nextTask
    · rw [ht, hask, hnone]
      rfl
    · rw [hother t ht]
  have howners : (c.start sha256 request).planOwners = c.planOwners := by
    refine filter_congr fun t ht => ?_
    obtain ⟨b, hb, rfl⟩ := mem_map.mp ht
    have hne : b.task ≠ c.nextTask := Nat.ne_of_lt (h.known b hb)
    unfold isPlan
    rw [hother _ hne]
  refine ⟨?_, ?_, ?_, ?_, ?_, ?_, h.fragments, ?_, ?_, ?_⟩
  · intro t ht
    have hlt : c.nextTask < t := ht
    rw [hother t (Nat.ne_of_gt hlt)]
    exact h.fresh t (Nat.le_of_lt hlt)
  · rw [hany _ (by rw [hself]; exact hplan)]
    exact h.plans
  · rw [hany _ (by rw [hself]; exact hexecution)]
    exact h.execution
  · rw [hany _ (by rw [hself]; exact hwriter)]
    exact h.writer
  · exact fun b hb => Nat.lt_succ_of_lt (h.known b hb)
  · intro t task ht
    by_cases hnew : t = c.nextTask
    · -- no byte is of a task that did not exist
      have hnil : c.contribution c.nextTask = [] := by
        unfold contribution
        rw [filter_eq_nil_iff.mpr]
        · rfl
        · intro b hb
          simpa using Nat.ne_of_lt (h.known b hb)
      rw [hnew, hself] at ht
      cases ht
      rw [hnew]
      change Task.Accounted _ (c.contribution c.nextTask)
      rw [hnil]
      exact haccount
    · rw [hother t hnew] at ht
      exact h.accounted t task ht
  · intro t task p accepted ht hphase hpos
    by_cases hnew : t = c.nextTask
    · rw [hnew, hself] at ht
      cases ht
      cases hwriter.symm.trans (holdsWriter_of_writing hphase)
    · rw [hother t hnew] at ht
      exact h.inFragment t task p accepted ht hphase hpos
  · rw [howners]
    exact h.planBlocks
  · intro t task ht hheld hne
    by_cases hnew : t = c.nextTask
    · rw [hnew, hself] at ht
      cases ht
      cases hplan.symm.trans hheld
    · rw [hother t hnew] at ht
      rw [howners]
      exact h.inPlan t task ht hheld hne

/-! ### A move -/

variable {stall : Option Duration} {channel : ℕ → Option (Except StoredError WriteReceipt)}
    {phase : Phase} {m : Move}

/-- A task in the middle of a fragment was there before the move, unless the
move is the one that accepted bytes. -/
theorem next_writing {r : Request}
    (hnext : phase.next stall channel r m = some (.writing p accepted, [])) (hpos : 0 < accepted) :
    phase = .writing p accepted := by
  unfold Phase.next at hnext
  split at hnext
  all_goals grind [Option.map_eq_some_iff, take_eq_nil_iff, Request.loop, Request.finish]

/-- The plan lock is taken in one place. -/
theorem next_holdsPlan {bytes : List UInt8}
    (hnext : task.phase.next stall channel task.request m = some (phase, bytes))
    (hheld : { task with phase := phase }.holdsPlan = true) :
    task.holdsPlan ∨ task.phase = .waitingPlan := by
  have hplan : task.request.isPlan := (Bool.and_eq_true_iff.mp hheld).1
  cases hphase : task.phase with
  | waitingPlan => exact .inr rfl
  | waitingExecution | waitingWriter | writing | wrote | crashed | delaying =>
    exact .inl (by simp [Task.holdsPlan, hplan, hphase])
  | completing result =>
    rw [hphase] at hnext
    cases m <;> cases hnext
    simp [Task.holdsPlan] at hheld
  | sending result =>
    rw [hphase] at hnext
    cases m <;> cases hnext
    simp [Task.holdsPlan] at hheld
  | joining sender =>
    rw [hphase] at hnext
    cases m with
    | received =>
      obtain ⟨result, -, he⟩ := Option.map_eq_some_iff.mp hnext
      cases he
      simp [Task.holdsPlan] at hheld
    | _ => cases hnext
  | returned result =>
    rw [hphase] at hnext
    cases m <;> cases hnext

/-- The account of one task over a move. -/
theorem Task.Accounted.next {bytes : List UInt8} {l : List (ℕ × UInt8)}
    (hnext : task.phase.next stall channel task.request m = some (phase, bytes))
    (h : task.Accounted l) :
    { task with phase := phase }.Accounted (l ++ bytes.map (task.writes, ·)) := by
  have hpassive : ((∃ sender, task.phase = .joining sender) ∨ ∃ result,
      task.phase = .returned result) → bytes = [] ∧ ∃ result, phase = .returned result := by
    rintro (⟨sender, hphase⟩ | ⟨result, hphase⟩)
    · rw [hphase] at hnext
      obtain ⟨result, -, hafter, hbytes⟩ := next_of_joining hnext
      exact ⟨hbytes, _, hafter⟩
    · rw [hphase, next_of_returned] at hnext
      cases hnext
  unfold Task.Accounted at h ⊢
  cases haction : task.action with
  | error e =>
    rw [haction] at h
    obtain ⟨rfl, result, rfl⟩ := hpassive h.2
    exact ⟨by simpa using h.1, .inr ⟨result, rfl⟩⟩
  | ok action =>
    rw [haction] at h
    cases action with
    | join sender =>
      obtain ⟨rfl, result, rfl⟩ := hpassive h.2
      exact ⟨by simpa using h.1, .inr ⟨result, rfl⟩⟩
    | execute => exact Written.next hnext h rfl

namespace Coordinator.Moved

variable {t : ℕ} {m : Move} {task : Task} {phase : Phase} {bytes : List UInt8}

section

variable (h : c.Moved sha256 t m task phase bytes d)
include h

theorem contribution (u : ℕ) :
    d.contribution u = c.contribution u ++ if u = t then bytes.map (task.writes, ·) else [] := by
  unfold Coordinator.contribution
  rw [h.terminal, filter_append, map_append]
  congr 1
  by_cases hu : u = t
  · rw [if_pos hu, hu, filter_eq_self.mpr]
    · simp
    · simp
  · rw [if_neg hu, filter_eq_nil_iff.mpr]
    · rfl
    · simp [Ne.symm hu]

theorem isPlan : d.isPlan = c.isPlan := by
  funext u
  unfold Coordinator.isPlan
  by_cases hu : u = t
  · rw [hu, h.tasks_self, h.known]
    rfl
  · rw [h.tasks_other hu]

theorem fragmentOwners :
    d.fragmentOwners = c.fragmentOwners ++ bytes.map fun _ => (t, task.writes) := by
  unfold Coordinator.fragmentOwners
  rw [h.terminal, map_append, map_map]
  rfl

theorem planOwners :
    d.planOwners = c.planOwners ++ if task.request.isPlan then bytes.map fun _ => t else [] := by
  have hplan : c.isPlan t = task.request.isPlan := by
    unfold Coordinator.isPlan
    rw [h.known]
    rfl
  unfold Coordinator.planOwners
  rw [h.terminal, h.isPlan, map_append, filter_append, map_map]
  congr 1
  split
  · rename_i hyes
    rw [filter_eq_self.mpr]
    · rfl
    · simp [hplan, hyes]
  · rename_i hno
    simp [hplan, hno]

/-- A guard moves with its task. -/
theorem guard {lock lock' : Option ℕ} {holds : Task → Bool}
    (hexact : Exact lock fun u => (c.tasks u).any holds)
    (hmove : relock lock t (holds task) (holds { task with phase := phase }) = some lock') :
    Exact lock' fun u => (d.tasks u).any holds := by
  refine hexact.relock ?_ fun u hu => by rw [h.tasks_other hu]
  rw [h.known, h.tasks_self]
  exact hmove

end

end Coordinator.Moved

variable {t : ℕ} {task' : Task}

/-- Two tasks do not write at once. -/
theorem Sound.writer_unique (h : Sound c) {u : ℕ} (ht : c.tasks t = some task)
    (hu : c.tasks u = some task') (hw : task.holdsWriter) (hw' : task'.holdsWriter) : t = u :=
  h.writer.unique (u := t) (v := u) (by rw [ht]; exact hw) (by rw [hu]; exact hw')

/-- Two control plans do not run at once. -/
theorem Sound.plan_unique (h : Sound c) {u : ℕ} (ht : c.tasks t = some task)
    (hu : c.tasks u = some task') (hp : task.holdsPlan) (hp' : task'.holdsPlan) : t = u :=
  h.plans.unique (u := t) (v := u) (by rw [ht]; exact hp) (by rw [hu]; exact hp')

section Moved

variable {t : ℕ} {m : Move} {task : Task} {phase : Phase} {bytes : List UInt8}

theorem getLast?_map_const {α β : Type} {l : List β} {bytes : List α} {x : β} (h : bytes ≠ []) :
    (l ++ bytes.map fun _ => x).getLast? = some x := by
  obtain ⟨init, last, rfl⟩ := eq_nil_or_concat bytes |>.resolve_left h
  simp

variable (h : Sound c) (hmoved : c.Moved sha256 t m task phase bytes d)
include h hmoved

/-- The accepted bytes go on with the fragment that is being written. -/
theorem Sound.moved_fragments : Blocks d.fragmentOwners := by
  rw [hmoved.fragmentOwners]
  by_cases hne : bytes = []
  · rw [hne, map_nil, append_nil]
    exact h.fragments
  obtain ⟨p, accepted, hphase, -⟩ := next_bytes hmoved.next hne
  have hwrites : task.writes = p.index := by simp [Task.writes, hphase]
  refine h.fragments.extend (y := (t, task.writes)) ?_ (by simp)
  rw [hwrites]
  rcases Nat.eq_zero_or_pos accepted with rfl | hpos
  · -- the fragment starts: the task has written only earlier ones
    refine .inl fun hmem => ?_
    obtain ⟨b, hb, he⟩ := mem_map.mp hmem
    obtain ⟨hbt, hbf⟩ := Prod.mk.inj he
    have hin : (b.fragment, b.byte) ∈ c.contribution t :=
      mem_map.mpr ⟨b, mem_filter.mpr ⟨hb, by simpa using hbt⟩, rfl⟩
    have haccount := h.accounted t task hmoved.known
    unfold Task.Accounted at haccount
    split at haccount
    · rw [hphase] at haccount
      have hpartly : Partly task.request p 0 (c.contribution t) := haccount
      rw [hpartly.bytes] at hin
      have hlt := task.request.upto_fragment (by simpa using hin)
      rw [hbf] at hlt
      exact Nat.lt_irrefl _ hlt
    · rw [haccount.1] at hin
      exact absurd hin not_mem_nil
  · exact .inr (h.inFragment t task p accepted hmoved.known hphase hpos)

theorem Sound.moved_inFragment {u : ℕ} {p : Progress} {accepted : ℕ} (hu : d.tasks u = some task')
    (hphase : task'.phase = .writing p accepted) (hpos : 0 < accepted) :
    d.fragmentOwners.getLast? = some (u, p.index) := by
  rw [hmoved.fragmentOwners]
  by_cases hut : u = t
  · subst hut
    rw [hmoved.tasks_self] at hu
    cases hu
    obtain rfl : phase = .writing p accepted := hphase
    by_cases hne : bytes = []
    · subst hne
      have hbefore := next_writing hmoved.next hpos
      simpa using h.inFragment u task p accepted hmoved.known hbefore hpos
    · obtain ⟨q, before, hq, hafter⟩ := next_bytes hmoved.next hne
      cases hafter
      have hwrites : task.writes = p.index := by simp [Task.writes, hq]
      rw [hwrites]
      exact getLast?_map_const hne
  · rw [hmoved.tasks_other hut] at hu
    have hnil : bytes = [] := by
      by_contra hne
      obtain ⟨q, before, hq, -⟩ := next_bytes hmoved.next hne
      exact hut (h.writer_unique hu hmoved.known (holdsWriter_of_writing hphase)
        (holdsWriter_of_writing hq))
    rw [hnil]
    simpa using h.inFragment u task' p accepted hu hphase hpos

/-- A plan that accepts bytes has the plan lock. -/
theorem Sound.moved_plans : Blocks d.planOwners := by
  rw [hmoved.planOwners]
  by_cases hplan : task.request.isPlan
  · rw [if_pos hplan]
    by_cases hne : bytes = []
    · rw [hne, map_nil, append_nil]
      exact h.planBlocks
    obtain ⟨p, accepted, hphase, -⟩ := next_bytes hmoved.next hne
    have hheld : task.holdsPlan := (holdsPlan_of_writing hphase).trans hplan
    refine h.planBlocks.extend (y := t) ?_ (by simp)
    by_cases hfirst : c.contribution t = []
    · -- its first byte
      refine .inl fun hmem => ?_
      obtain ⟨b, hb, hbt⟩ := mem_map.mp (mem_of_mem_filter hmem)
      have hin : (b.fragment, b.byte) ∈ c.contribution t :=
        mem_map.mpr ⟨b, mem_filter.mpr ⟨hb, by simpa using hbt⟩, rfl⟩
      rw [hfirst] at hin
      exact absurd hin not_mem_nil
    · exact .inr (h.inPlan t task hmoved.known hheld hfirst)
  · rw [if_neg hplan, append_nil]
    exact h.planBlocks

theorem Sound.moved_inPlan {u : ℕ} (hu : d.tasks u = some task') (hheld : task'.holdsPlan)
    (hne : d.contribution u ≠ []) : d.planOwners.getLast? = some u := by
  rw [hmoved.planOwners]
  rw [hmoved.contribution] at hne
  by_cases hut : u = t
  · subst hut
    rw [hmoved.tasks_self] at hu
    cases hu
    have hplan : task.request.isPlan := (Bool.and_eq_true_iff.mp hheld).1
    rw [if_pos hplan]
    by_cases hbytes : bytes = []
    · subst hbytes
      simp only [map_nil, ite_self, append_nil] at hne ⊢
      rcases next_holdsPlan hmoved.next hheld with hbefore | hwaiting
      · exact h.inPlan u task hmoved.known hbefore hne
      · -- a task that waits for the plan lock has written nothing
        refine absurd ?_ hne
        have haccount := h.accounted u task hmoved.known
        unfold Task.Accounted at haccount
        split at haccount
        · rw [hwaiting] at haccount
          exact haccount
        · exact haccount.1
    · exact getLast?_map_const hbytes
  · rw [hmoved.tasks_other hut] at hu
    rw [if_neg hut, append_nil] at hne
    have hquiet : (if task.request.isPlan then bytes.map fun _ => t else []) = [] := by
      split
      · rename_i hplan
        by_contra hbytes
        have hbytes' : bytes ≠ [] := fun e => hbytes (by rw [e]; rfl)
        obtain ⟨q, before, hq, -⟩ := next_bytes hmoved.next hbytes'
        exact hut (h.plan_unique hu hmoved.known hheld ((holdsPlan_of_writing hq).trans hplan))
      · rfl
    rw [hquiet, append_nil]
    exact h.inPlan u task' hu hheld hne

theorem Sound.moved : Sound d := by
  have hlt : t < c.nextTask := by
    by_contra hge
    have hnone := h.fresh t (Nat.le_of_not_lt hge)
    rw [hmoved.known] at hnone
    cases hnone
  refine ⟨?_, hmoved.guard h.plans hmoved.plans, hmoved.guard h.execution hmoved.execution,
    hmoved.guard h.writer hmoved.writer, ?_, ?_, h.moved_fragments hmoved,
    fun u task' p accepted hu hphase hpos => h.moved_inFragment hmoved hu hphase hpos,
    h.moved_plans hmoved, fun u task' hu hheld hne => h.moved_inPlan hmoved hu hheld hne⟩
  · intro u hu
    rw [hmoved.nextTask] at hu
    rw [hmoved.tasks_other (Nat.ne_of_gt (Nat.lt_of_lt_of_le hlt hu))]
    exact h.fresh u hu
  · intro b hb
    rw [hmoved.nextTask]
    rw [hmoved.terminal] at hb
    rcases mem_append.mp hb with hb | hb
    · exact h.known b hb
    · obtain ⟨x, -, rfl⟩ := mem_map.mp hb
      exact hlt
  · intro u task' hu
    rw [hmoved.contribution]
    by_cases hut : u = t
    · subst hut
      rw [hmoved.tasks_self] at hu
      cases hu
      rw [if_pos rfl]
      exact (h.accounted u task hmoved.known).next hmoved.next
    · rw [hmoved.tasks_other hut] at hu
      rw [if_neg hut, append_nil]
      exact h.accounted u task' hu

end Moved

/-! ### Every run -/

theorem sound_new {capacity : ℕ} (hnew : new capacity stall = .ok c) :
    Sound c := by
  unfold new at hnew
  split at hnew
  · cases hnew
  · cases hnew
    refine ⟨fun _ _ => rfl, ?_, ?_, ?_, ?_, ?_, Blocks.nil, ?_, Blocks.nil, ?_⟩
    · exact fun u => by simp
    · exact fun u => by simp
    · exact fun u => by simp
    · exact fun b hb => absurd hb not_mem_nil
    · exact fun t task ht => by cases ht
    · exact fun t task p accepted ht => by cases ht
    · exact fun t task ht => by cases ht

theorem Sound.step (h : Sound c) {e : Event} (hstep : c.Step sha256 e d) : Sound d := by
  rcases step_cases hstep with ⟨request, -, rfl⟩ | ⟨t, m, task, phase, bytes, -, hmoved⟩
  · exact h.start request
  · exact h.moved hmoved

theorem sound_run {capacity : ℕ} {tr : List Event}
    (hrun : CoordinatorRun sha256 capacity stall tr c) : Sound c := by
  obtain ⟨start, hnew, hr⟩ := hrun
  exact hr.invariant (sound_new hnew) fun h hs => h.step hs

/-- The task that writes for a call: the one it joined, or its own. -/
def Task.writer (t : ℕ) (task : Task) : ℕ :=
  match task.action with
  | .ok (.join s) => s
  | _ => t

variable {result : Except InputError WriteReceipt}

theorem Sound.final (h : Sound c)
    (ht : c.tasks t = some task) (haction : task.action = .ok .execute)
    (hphase : task.phase = .returned result) : Final task.request result (c.contribution t) := by
  have haccount := h.accounted t task ht
  unfold Task.Accounted at haccount
  rw [haction, hphase] at haccount
  exact haccount

/-- A call that joined has the result of the call that wrote. -/
theorem Sound.joined (h : Sound c) (hdelivered : Delivered c) {s : ℕ}
    (ht : c.tasks t = some task) (haction : task.action = .ok (.join s))
    (hphase : task.phase = .returned result) : ∃ first r, c.tasks s = some first ∧
      first.action = .ok .execute ∧ first.phase = .returned r ∧ SameResult r result := by
  rcases hdelivered.joining t task s ht haction with hwaits | ⟨result', hsent, hreturned⟩
  · cases hphase.symm.trans hwaits
  · obtain ⟨first, r, hfirst, hexecutes, hr, rfl⟩ := hdelivered.sent s result' hsent
    rw [hphase] at hreturned
    obtain rfl := Phase.returned.inj hreturned
    exact ⟨first, r, hfirst, hexecutes, hr, joined_stored (h.final hfirst hexecutes hr).kind⟩

theorem Sound.start_of (h : Sound c) (ht : c.tasks t = some task) :
    (c.contribution t).map Prod.snd <+: task.request.bytes := by
  have haccount := h.accounted t task ht
  unfold Task.Accounted at haccount
  split at haccount
  · exact haccount.start
  · rw [haccount.1]
    exact nil_prefix

/-- **Control plans are atomic, and their progress is exact.** In every run
the bytes of each fragment stand together, and no byte of a control plan lies
between two bytes of another one. What the terminal accepted of a call is a
start of its fragments, one after the other. When a call returns `Ok`, the
terminal accepted all of the plan from the task that wrote it, and when it
returns `Stalled`, exactly `written` of its `total` bytes. -/
theorem control_plan_atomicity {capacity : ℕ} {stall : Option Duration} {tr : List Event}
    (hrun : CoordinatorRun sha256 capacity stall tr c) :
    Blocks c.fragmentOwners ∧ Blocks c.planOwners ∧
      ∀ t task, c.tasks t = some task → (c.contribution t).map Prod.snd <+: task.request.bytes ∧
      ∀ result, task.phase = .returned result →
        (∀ receipt, result = .ok receipt → ∃ writer, c.tasks (task.writer t) = some writer ∧
          (c.contribution (task.writer t)).map Prod.snd = writer.request.bytes) ∧
        ∀ written total d, result = .error (.stalled written total d) →
          ∃ writer, c.tasks (task.writer t) = some writer ∧
            (c.contribution (task.writer t)).length = written ∧
            total = writer.request.bytes.length := by
  have h := sound_run hrun
  have hdelivered := delivered_run hrun
  refine ⟨h.fragments, h.planBlocks, fun t task ht => ⟨h.start_of ht, fun result hphase => ?_⟩⟩
  unfold Task.writer
  cases haction : task.action with
  | error e =>
    -- a call that is refused returns neither
    obtain ⟨plan, -, hkind⟩ :=
      (ledger_run hrun).refused t task.call e (by rw [calls, ht]; rfl) haction
    obtain rfl : result = .error e := by
      have hreturned := hdelivered.refused t task e ht haction
      rw [hphase] at hreturned
      exact Phase.returned.inj hreturned
    refine ⟨fun receipt he => (by cases he), fun written total d he => ?_⟩
    cases he
    rcases hkind with he | ⟨he, -⟩ <;> cases he
  | ok action =>
    cases action with
    | execute =>
      have hfinal := h.final ht haction hphase
      exact ⟨fun receipt he => ⟨task, ht, hfinal.whole receipt he⟩,
        fun written total d he => ⟨task, ht, hfinal.exact written total d he⟩⟩
    | join s =>
      obtain ⟨first, r, hfirst, hexecutes, hreturned, hsame⟩ :=
        h.joined hdelivered ht haction hphase
      have hfinal := h.final hfirst hexecutes hreturned
      refine ⟨fun receipt he => ⟨first, hfirst, ?_⟩, fun written total d he => ⟨first, hfirst, ?_⟩⟩
      · rcases hsame with hr | ⟨error, -, hr⟩
        · exact hfinal.whole receipt (hr.symm.trans he)
        · cases hr.symm.trans he
      · rcases hsame with hr | ⟨error, -, hr⟩
        · exact hfinal.exact written total d (hr.symm.trans he)
        · cases hr.symm.trans he

/-! ### A run -/

/-- A digest, by its value. -/
def digestOf (value : ℕ) : Digest := ⟨(beBytes 32 value).toArray, by simp [beBytes_length]⟩

def sampleFragment (bytes : List UInt8) (h : bytes.length < 2 ^ 64) :
    InputFragment := ⟨bytes, ⟨0, by norm_num⟩, h⟩

/-- The fragments `ab` and `c`. -/
def sampleTwo : List InputFragment :=
  [sampleFragment [97, 98] (by decide), sampleFragment [99] (by decide)]

/-- The fragment `xy`. -/
def sampleOne : List InputFragment := [sampleFragment [120, 121] (by decide)]

/-- SHA-256 of what the sample runs hash. -/
def sampleSha256 (input : List UInt8) : Digest :=
  digestOf <|
    if input = fingerprintInput sampleTwo then
      0xaac03e5418bf2a68fb96aa5afe14649ba97a2baf744e25a95421858653811da8
    else if input = fingerprintInput sampleOne then
      0x3e06b119ee25a2cc5e6c70ff85b0d1ecc91dbec0c3cc4be64d845fff3c69597a
    else if input = "input-1".toUTF8.toList then
      0xf7218970d1a5858b1d37bd7f2935222ceb12c787fc91ee5e9ebf03584d5b2a02
    else if input = "input-2".toUTF8.toList then
      0xc7eecf410e5f1762cd663f0095b8fd5afb11343a08218ab27a83085228d07e54
    else 0

def sampleStall : Duration := ⟨5 * 10 ^ 9, by norm_num⟩

/-- Two plans and an attach write. The write lands between the fragments of
the first plan, whose writer accepts one byte at a time; the second plan
stalls after one byte. -/
def sampleInterleaving : List Event :=
  [.call (.control "a" 1 ⟨"input-a-1", sampleTwo⟩), .call (.control "a" 2 ⟨"input-a-2", sampleOne⟩),
    .call (.stream [sampleFragment [115] (by decide)]),
    .move 0 .planLocked, .move 0 .executionLocked, .move 0 (.writerLocked 10),
    .move 0 (.accepted 1),
    .move 0 (.failed ⟨.interrupted, "interrupted"⟩), .move 0 (.accepted 1), .move 0 (.flushed none),
    .move 0 .resumed, .move 2 .executionLocked, .move 2 (.writerLocked 20), .move 2 (.accepted 1),
    .move 2 (.flushed none), .move 2 .resumed, .move 2 .woke,
    .move 0 .woke, .move 0 .executionLocked, .move 0 (.writerLocked 30), .move 0 (.accepted 1),
    .move 0 (.flushed none), .move 0 .resumed, .move 0 .woke, .move 0 .completed, .move 0 .sent,
    .move 1 .planLocked, .move 1 .executionLocked, .move 1 (.writerLocked 40),
    .move 1 (.accepted 1),
    .move 1 (.failed ⟨.timedOut, "timed out"⟩), .move 1 .resumed, .move 1 .completed, .move 1 .sent]

/-- The terminal accepts `ab`, `s`, `c` and `x`. -/
theorem control_plan_atomicity_interleaved :
    ∃ c, CoordinatorRun sampleSha256 2 (some sampleStall) sampleInterleaving c ∧
      c.terminal.map (·.byte) = [97, 98, 115, 99, 120] ∧ Blocks c.fragmentOwners ∧
      Blocks c.planOwners := by
  have hrun : CoordinatorRun sampleSha256 2 (some sampleStall) sampleInterleaving _ :=
    play_run (Option.some_get (by decide +kernel)).symm
  obtain ⟨hfragments, hplans, -⟩ := control_plan_atomicity hrun
  exact ⟨_, hrun, by decide +kernel, hfragments, hplans⟩

end Sound

end Pohunek.Input
