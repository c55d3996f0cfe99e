/-
# Which outcomes are retained

`complete` drops the oldest completed id beyond the capacity, whichever
namespace the completed write was of. A write of the current namespace that
is running, or among the `capacity` most recently completed ones of the
namespace, has its entry as long as no completion of an earlier namespace
takes a place from it: exactly when not both a write of the current namespace
has been dropped and a completion of an earlier one is still kept
(`retained_outcomes_iff`). A stale completion behind one of the current
namespace can bring that about (`stale_completion_drops_outcome`).
-/
import Mathlib.Data.List.DropRight
import Pohunek.Input.AtMostOnce

namespace Pohunek.Input

open List Coordinator DedupState

/-! ### The most recent of a list -/

section Recent

variable {α : Type*}

theorem rtake_append {u v : List α} {n : ℕ} (h : n ≤ v.length) : (u ++ v).rtake n = v.rtake n := by
  unfold rtake
  have hlen : (u ++ v).length - n = u.length + (v.length - n) := by
    rw [length_append]
    omega
  rw [hlen, drop_append]
  simp

theorem rdrop_append {u v : List α} {n : ℕ} (h : n ≤ v.length) :
    (u ++ v).rdrop n = u ++ v.rdrop n := by
  unfold rdrop
  have hlen : (u ++ v).length - n = u.length + (v.length - n) := by
    rw [length_append]
    omega
  rw [hlen, take_length_add_append]

theorem rdrop_append_rtake (l : List α) (n : ℕ) : l.rdrop n ++ l.rtake n = l := take_append_drop _ _

/-- One element more, seen from the last `n` ones. -/
theorem recent_snoc (l : List α) (n : ℕ) (x : α) :
    (l ++ [x]).rtake n = (l.rtake n ++ [x]).rtake n ∧
    (l ++ [x]).rdrop n = l.rdrop n ++ (l.rtake n ++ [x]).rdrop n := by
  have hcut : l ++ [x] = l.rdrop n ++ (l.rtake n ++ [x]) := by
    rw [← append_assoc, rdrop_append_rtake]
  rcases Nat.lt_or_ge l.length n with hshort | hlong
  · -- everything is kept
    have hall : l.rtake n = l := by
      unfold rtake
      rw [Nat.sub_eq_zero_of_le (Nat.le_of_lt hshort), drop_zero]
    have hnone : l.rdrop n = [] := by
      unfold rdrop
      rw [Nat.sub_eq_zero_of_le (Nat.le_of_lt hshort), take_zero]
    rw [hall, hnone]
    exact ⟨rfl, rfl⟩
  · have hlen : n ≤ (l.rtake n ++ [x]).length := by
      simp [rtake]
      omega
    rw [hcut, rtake_append hlen, rdrop_append hlen]
    exact ⟨rfl, rfl⟩

/-- **Recency under a common bound.** The last `n` elements with `p` are all
among the last `n`, unless an element with `p` is before those and one
without is among them. -/
theorem recent_kept_iff {l : List α} (hnodup : l.Nodup) (p : α → Bool) (n : ℕ) :
    (∀ x ∈ (l.filter p).rtake n, x ∉ l.rdrop n) ↔
      ¬((∃ x ∈ l.rdrop n, p x) ∧ ∃ x ∈ l.rtake n, p x = false) := by
  have hsplit : l.filter p = (l.rdrop n).filter p ++ (l.rtake n).filter p := by
    rw [← filter_append, rdrop_append_rtake]
  constructor
  · rintro hkept ⟨⟨y, hy, hpy⟩, z, hz, hpz⟩
    -- the last of the dropped ones with `p` is recent: fewer than `n` follow it
    have hne : (l.rdrop n).filter p ≠ [] := ne_nil_of_mem (mem_filter.mpr ⟨hy, hpy⟩)
    obtain ⟨init, e, he⟩ := (eq_nil_or_concat _).resolve_left hne
    have hfew : ((l.rtake n).filter p).length < n := by
      have hlt : ((l.rtake n).filter p).length < (l.rtake n).length := by
        refine length_filter_lt_length_iff_exists.mpr ⟨z, hz, by simp [hpz]⟩
      have hle : (l.rtake n).length ≤ n := by
        rw [rtake, length_drop]
        omega
      omega
    have hrecent : e ∈ (l.filter p).rtake n := by
      rw [hsplit, he, concat_append, rtake, drop_append_of_le_length]
      · simp
      · simp only [length_append, length_cons]
        omega
    have hdropped : e ∈ l.rdrop n := by
      have hmem : e ∈ (l.rdrop n).filter p := by
        rw [he]
        simp
      exact mem_of_mem_filter hmem
    exact hkept e hrecent hdropped
  · intro hcond x hx hdropped
    have hpx : p x := of_mem_filter (mem_of_mem_drop hx)
    have hall : ∀ z ∈ l.rtake n, p z := by
      intro z hz
      by_contra hpz
      exact hcond ⟨⟨x, hdropped, hpx⟩, z, hz, Bool.eq_false_iff.mpr hpz⟩
    have hfull : (l.rtake n).length = n := by
      have hpos := length_pos_of_mem hdropped
      rw [rdrop, length_take] at hpos
      rw [rtake, length_drop]
      omega
    have hsame : (l.filter p).rtake n = l.rtake n := by
      rw [hsplit, filter_eq_self.mpr hall, rtake_append (Nat.le_of_eq hfull.symm), rtake, hfull,
        Nat.sub_self, drop_zero]
    rw [hsame] at hx
    rw [← rdrop_append_rtake l n] at hnodup
    exact (disjoint_of_nodup_append hnodup) hdropped hx

end Recent

/-! ### Entries and completions -/

variable {sha256 : List UInt8 → Digest} {c d : Coordinator} {n : ℕ}

namespace Coordinator

/-- The write id of a task. -/
def writeIdOf (c : Coordinator) (t : ℕ) : String :=
  (((c.calls t).bind fun call => call.request.plan).map (·.writeId)).getD ""

/-- The ids whose completions no longer have a place. -/
def dropped (c : Coordinator) (n : ℕ) : List String := (c.completions.rdrop n).map c.writeIdOf

/-- Whether a task is of the current namespace. -/
def isCurrent (c : Coordinator) (t : ℕ) : Bool := (c.tasks t).any fun task => task.epoch = c.epoch

/-- A write id is written once, also across namespaces. -/
def Unique (c : Coordinator) : Prop :=
  ∀ t u plan plan' epoch epoch', c.Writes t plan epoch → c.Writes u plan' epoch' →
    plan.writeId = plan'.writeId → t = u

end Coordinator

/-- `complete` has run. -/
def Task.isCompleted (task : Task) : Bool :=
  match task.phase with
  | .sending _ | .returned _ => true
  | _ => false

variable {t epoch : ℕ} {plan : InputPlan}

theorem Coordinator.Writes.writeIdOf (h : c.Writes t plan epoch) :
    c.writeIdOf t = plan.writeId := by
  obtain ⟨task, ht, -, hplan, -⟩ := h
  simp [Coordinator.writeIdOf, calls_of_tasks ht, Task.call, hplan]

variable {bytes : List UInt8}

theorem writes_of_moved {m : Move} {task : Task} {phase : Phase}
    (hmoved : c.Moved sha256 t m task phase bytes d) {u : ℕ} :
    d.Writes u plan epoch ↔ c.Writes u plan epoch := by
  constructor
  · rintro ⟨task', hu, hrest⟩
    rcases hmoved.cases hu with ⟨rfl, rfl⟩ | ⟨-, hu⟩
    · exact ⟨task, hmoved.known, hrest⟩
    · exact ⟨task', hu, hrest⟩
  · rintro ⟨task', hu, hrest⟩
    by_cases hut : u = t
    · subst hut
      rw [hmoved.known] at hu
      cases hu
      exact ⟨_, hmoved.tasks_self, hrest⟩
    · rw [← hmoved.tasks_other hut] at hu
      exact ⟨task', hu, hrest⟩

theorem writes_start (hfresh : c.tasks c.nextTask = none) (r : Request)
    (h : c.Writes t plan epoch) : (c.start sha256 r).Writes t plan epoch := by
  obtain ⟨task, ht, hrest⟩ := h
  have hne : t ≠ c.nextTask := by
    rintro rfl
    cases ht.symm.trans hfresh
  exact ⟨task, (c.start_other r hne).trans ht, hrest⟩

/-- What is in the state of the writes of the current namespace, from the
completions that were recorded since it was selected. -/
structure Recalled (sha256 : List UInt8 → Digest) (n : ℕ) (c : Coordinator) : Prop where
  capacity : c.state.capacity = n
  nodup : c.completions.Nodup
  done : ∀ t ∈ c.completions, ∃ task plan, c.tasks t = some task ∧ task.action = .ok .execute ∧
    task.request.plan = some plan ∧ task.isCompleted
  completed : c.state.completed = (c.completions.rtake n).map c.writeIdOf
  kept : ∀ t plan, c.Writes t plan c.epoch → plan.writeId ∉ c.dropped n →
    c.state.entries[plan.writeId]? = some ⟨fingerprint sha256 plan, t⟩
  lost : ∀ t plan, c.Writes t plan c.epoch → plan.writeId ∈ c.dropped n →
    c.state.entries[plan.writeId]? = none
  selected : ∀ t task, c.tasks t = some task → task.request.isPlan → task.epoch = c.epoch →
    c.resets task.request = false

theorem resets_congr (hnamespace : d.state.namespaceId = c.state.namespaceId)
    (hmode : d.state.mode = c.state.mode) : d.resets = c.resets := by
  funext r
  cases r <;> simp only [resets, selected, hnamespace, hmode]

theorem opened_selected (c : Coordinator) (r : Request) : (c.opened r).resets r = false := by
  have hselect : ∀ namespaceId mode,
      (c.state.selectNamespace namespaceId mode).selected namespaceId mode := by
    intro namespaceId mode
    unfold selectNamespace
    split
    · assumption
    · simp [selected]
  cases r with
  | control | legacy => simp [resets, opened, Request.opened, hselect]
  | stream | reply => rfl

/-- A call leaves the state alone, or it writes and gets an entry. -/
theorem start_state (c : Coordinator) (r : Request) :
    ((c.start sha256 r).state = (c.opened r).state ∧ ∀ plan,
      ¬((c.entered sha256 r).call.Writes plan)) ∨ ∃ plan, (c.entered sha256 r).call.Writes plan ∧
      (c.start sha256 r).state = { r.advanced (c.opened r).state with
        entries := (c.opened r).state.entries.insert plan.writeId
          ⟨fingerprint sha256 plan, c.nextTask⟩ } := by
  have hstate : (c.start sha256 r).state = (c.dedupe sha256 r).1 := rfl
  have haction : (c.entered sha256 r).call.action = (c.dedupe sha256 r).2 := rfl
  cases hplan : r.plan with
  | none =>
    refine .inl ⟨?_, fun plan hw => by cases hplan.symm.trans hw.plan⟩
    cases r with
    | control | legacy => cases hplan
    | stream | reply => rfl
  | some plan =>
    have hadmission := c.dedupe_plan sha256 hplan
    generalize c.dedupe sha256 r = decided at hstate haction hadmission
    cases hadmission with
    | conflict | join | expired =>
      refine .inl ⟨hstate, fun plan hw => ?_⟩
      cases haction.symm.trans hw.action
    | execute => exact .inr ⟨plan, ⟨haction, hplan⟩, hstate⟩

variable {r : Request}

/-- After a call, the entry of a write is its new one, or the one it had. -/
theorem start_entry (hunique : (c.start sha256 r).Unique)
    (hw : (c.start sha256 r).Writes t plan epoch) :
    (t = c.nextTask ∧
    (c.start sha256 r).state.entries[plan.writeId]? = some ⟨fingerprint sha256 plan, t⟩) ∨
      (t ≠ c.nextTask ∧ (c.start sha256 r).state.entries[plan.writeId]? =
      (c.opened r).state.entries[plan.writeId]?) := by
  have hself : ∀ {p}, (c.entered sha256 r).call.Writes p →
    (c.start sha256 r).Writes c.nextTask p (c.epochOf r) :=
    fun hp => ⟨_, c.start_self r, hp.action, hp.plan, rfl⟩
  rcases start_state c r with ⟨hstate, hquiet⟩ | ⟨plan', hwrites, hstate⟩
  · refine .inr ⟨?_, by rw [hstate]⟩
    rintro rfl
    obtain ⟨task, ht, ha, hplan, -⟩ := hw
    rw [c.start_self] at ht
    cases ht
    exact hquiet plan ⟨ha, hplan⟩
  · have hget : (c.start sha256 r).state.entries[plan.writeId]? =
        if plan'.writeId = plan.writeId then some ⟨fingerprint sha256 plan', c.nextTask⟩
        else (c.opened r).state.entries[plan.writeId]? := by
      rw [hstate]
      simp only [Std.ExtTreeMap.getElem?_insert, Std.LawfulEqCmp.compare_eq_iff_eq]
    by_cases htn : t = c.nextTask
    · obtain ⟨task, ht, -, hplan, -⟩ := hw
      rw [htn, c.start_self] at ht
      cases ht
      obtain rfl : plan' = plan := Option.some.inj (hwrites.plan.symm.trans hplan)
      rw [hget, if_pos rfl, htn]
      exact .inl ⟨rfl, rfl⟩
    · refine .inr ⟨htn, ?_⟩
      rw [hget, if_neg fun hid =>
        htn (hunique t c.nextTask plan plan' _ _ hw (hself hwrites) hid.symm)]

namespace Recalled

section

variable (h : Recalled sha256 n c)
include h

theorem opened (hledger : Ledger sha256 c) (r : Request) :
    Recalled sha256 n (c.opened r) := by
  rcases c.opened_cases r with hsame | ⟨hepoch, hcompletions, hentries, hcompleted, hcapacity⟩
  · rw [hsame]
    exact h
  · have hnone : ∀ {t task}, c.tasks t = some task → task.epoch ≠ (c.opened r).epoch := by
      intro t task ht
      have hle : task.call.epoch ≤ c.epoch := hledger.epochs t _ (calls_of_tasks ht)
      have heq : task.call.epoch = task.epoch := rfl
      omega
    refine ⟨hcapacity.trans h.capacity, ?_, ?_, ?_, ?_, ?_, ?_⟩
    · rw [hcompletions]
      exact nodup_nil
    · rw [hcompletions]
      exact fun t ht => absurd ht not_mem_nil
    · rw [hcompletions, hcompleted, rtake_nil, map_nil]
    · rintro t plan ⟨task, ht, -, -, he⟩
      exact absurd he (hnone ht)
    · rintro t plan ⟨task, ht, -, -, he⟩
      exact absurd he (hnone ht)
    · exact fun t task ht _ he => absurd he (hnone ht)

variable {t : ℕ}

/-- A task whose completion is recorded is a known one. -/
theorem ne_fresh {u : ℕ} (hfresh : c.tasks u = none) (ht : t ∈ c.completions) :
    t ≠ u := by
  rintro rfl
  obtain ⟨task, -, htask, -⟩ := h.done t ht
  cases htask.symm.trans hfresh

theorem writes (ht : t ∈ c.completions) :
    ∃ plan epoch, c.Writes t plan epoch ∧ c.writeIdOf t = plan.writeId := by
  obtain ⟨task, plan, htask, ha, hplan, -⟩ := h.done t ht
  have hw : c.Writes t plan task.epoch := ⟨task, htask, ha, hplan, rfl⟩
  exact ⟨plan, task.epoch, hw, hw.writeIdOf⟩

/-- A call is decided. -/
theorem start (hledger : Ledger sha256 c) (hfresh : c.tasks c.nextTask = none)
    (r : Request) (hunique : (c.start sha256 r).Unique) : Recalled sha256 n (c.start sha256 r) := by
  have ho := h.opened hledger r
  set o := c.opened r with hodef
  have hknown : ∀ t ∈ o.completions, t ≠ c.nextTask := fun t => ho.ne_fresh hfresh
  have hids : ∀ l : List ℕ, (∀ t ∈ l, t ∈ o.completions) →
      l.map (c.start sha256 r).writeIdOf = l.map o.writeIdOf := by
    intro l hl
    refine map_congr_left fun t ht => ?_
    unfold writeIdOf
    rw [calls_start, Function.update_of_ne (hknown t (hl t ht))]
    rfl
  have hdrop : ∀ t ∈ o.completions.rdrop n, t ∈ o.completions := fun t ht => mem_of_mem_take ht
  have hdropped : (c.start sha256 r).dropped n = o.dropped n := hids _ hdrop
  have hold : ∀ {t plan}, (c.start sha256 r).Writes t plan o.epoch → t ≠ c.nextTask →
    o.Writes t plan o.epoch := by
    rintro t plan ⟨task, ht, hrest⟩ hne
    rw [c.start_other r hne] at ht
    exact ⟨task, ht, hrest⟩
  -- the id of a new write has not been completed before
  have hnew : ∀ {plan}, (c.start sha256 r).Writes c.nextTask plan o.epoch →
    plan.writeId ∉ o.dropped n := by
    intro plan hw hmem
    obtain ⟨u, hu, hid⟩ := mem_map.mp hmem
    obtain ⟨plan', epoch, hwrites, hid'⟩ := ho.writes (hdrop u hu)
    have hsame := hunique u c.nextTask plan' plan epoch _ (writes_start hfresh r hwrites) hw
      (hid'.symm.trans hid)
    exact hknown u (hdrop u hu) hsame
  have hkept : (c.start sha256 r).state.capacity = o.state.capacity ∧
      (c.start sha256 r).state.completed = o.state.completed ∧
      (c.start sha256 r).state.namespaceId = o.state.namespaceId ∧
      (c.start sha256 r).state.mode = o.state.mode := by
    rcases start_state c r with ⟨hstate, -⟩ | ⟨plan, -, hstate⟩
    · rw [hstate]
      exact ⟨rfl, rfl, rfl, rfl⟩
    · rw [hstate]
      cases r <;> exact ⟨rfl, rfl, rfl, rfl⟩
  refine ⟨hkept.1.trans ho.capacity, ho.nodup, ?_, ?_, ?_, ?_, ?_⟩
  · intro t ht
    obtain ⟨task, plan, htask, hrest⟩ := ho.done t ht
    exact ⟨task, plan, (c.start_other r (hknown t ht)).trans htask, hrest⟩
  · rw [hkept.2.1, ho.completed]
    exact (hids _ fun t ht => mem_of_mem_drop ht).symm
  · intro t plan hw hmem
    rw [hdropped] at hmem
    rcases start_entry hunique hw with ⟨-, he⟩ | ⟨hne, he⟩
    · exact he
    · exact he.trans (ho.kept t plan (hold hw hne) hmem)
  · intro t plan hw hmem
    rw [hdropped] at hmem
    rcases start_entry hunique hw with ⟨rfl, -⟩ | ⟨hne, he⟩
    · exact absurd hmem (hnew hw)
    · exact he.trans (ho.lost t plan (hold hw hne) hmem)
  · intro t task ht hplan hepoch
    rw [resets_congr hkept.2.2.1 hkept.2.2.2]
    rcases c.start_cases r ht with ⟨-, rfl⟩ | ⟨-, ht⟩
    · exact opened_selected c r
    · exact ho.selected t task ht hplan hepoch

/-- A task that has completed stays completed. -/
theorem done_moved {m : Move} {task : Task} {phase : Phase}
    (hmoved : c.Moved sha256 t m task phase bytes d) {u : ℕ} (hu : u ∈ c.completions) :
    ∃ task' plan, d.tasks u = some task' ∧ task'.action = .ok .execute ∧
      task'.request.plan = some plan ∧ task'.isCompleted := by
  obtain ⟨task', plan, htask, ha, hplan, hdone⟩ := h.done u hu
  by_cases hut : u = t
  · subst hut
    rw [hmoved.known] at htask
    cases htask
    refine ⟨_, plan, hmoved.tasks_self, ha, hplan, ?_⟩
    have hnext := hmoved.next
    unfold Task.isCompleted at hdone
    split at hdone
    · rename_i result hphase
      rw [hphase] at hnext
      obtain ⟨rfl, -⟩ := next_of_sending hnext
      rfl
    · rename_i result hphase
      rw [hphase, next_of_returned] at hnext
      cases hnext
    · cases hdone
  · exact ⟨task', plan, (hmoved.tasks_other hut).trans htask, ha, hplan, hdone⟩

theorem moved (hdelivered : Delivered c) {m : Move} {task : Task} {phase : Phase}
    (hmoved : c.Moved sha256 t m task phase bytes d) : Recalled sha256 n d := by
  have hid : d.writeIdOf = c.writeIdOf := by
    funext u
    unfold writeIdOf
    rw [hmoved.calls]
  have hselected : d.state.namespaceId = c.state.namespaceId → d.state.mode = c.state.mode →
      ∀ u task', d.tasks u = some task' → task'.request.isPlan → task'.epoch = d.epoch →
        d.resets task'.request = false := by
    intro hnamespace hmode u task' hu hplan hepoch
    rw [resets_congr hnamespace hmode]
    rw [hmoved.epoch] at hepoch
    rcases hmoved.cases hu with ⟨rfl, rfl⟩ | ⟨-, hu⟩
    · exact h.selected u task hmoved.known hplan hepoch
    · exact h.selected u task' hu hplan hepoch
  rcases completion_cases sha256 t task c.state c.completions with
    ⟨result, plan, hphase, hplan, hstate, hcompletions⟩ | ⟨hstate, hcompletions⟩
  · -- the completion of the task is recorded
    rw [← hmoved.state] at hstate
    rw [← hmoved.completions] at hcompletions
    have haction : task.action = .ok .execute := by
      refine hdelivered.executes hmoved.known (fun s hs => ?_) (fun {r} hr => ?_)
      · cases hphase.symm.trans hs
      · cases hphase.symm.trans hr
    have hwriteId : c.writeIdOf t = plan.writeId :=
      Coordinator.Writes.writeIdOf ⟨task, hmoved.known, haction, hplan, rfl⟩
    have htrim : c.state.Trimmed sha256
      ((c.completions.rtake n ++ [t]).map c.writeIdOf) d.state := by
      have hids : c.state.completed ++ [plan.writeId] =
        (c.completions.rtake n ++ [t]).map c.writeIdOf := by
        rw [h.completed, map_append, map_singleton, hwriteId]
      rw [hstate, ← hids]
      exact trim_spec _ _
    have hout : ((c.completions.rtake n ++ [t]).map c.writeIdOf).take
        (((c.completions.rtake n ++ [t]).map c.writeIdOf).length - c.state.capacity) =
        ((c.completions.rtake n ++ [t]).rdrop n).map c.writeIdOf := by
      rw [h.capacity, length_map, ← map_take]
      rfl
    obtain ⟨hkept, hdropped⟩ := recent_snoc c.completions n t
    have hdrop : ∀ id, id ∈ d.dropped n ↔ id ∈ c.dropped n ∨
        id ∈ ((c.completions.rtake n ++ [t]).rdrop n).map c.writeIdOf := by
      intro id
      unfold dropped
      rw [hid, hcompletions, hdropped, map_append, mem_append]
    refine ⟨htrim.capacity.trans h.capacity, ?_, ?_, ?_, ?_, ?_,
      hselected htrim.namespaceId htrim.mode⟩
    · rw [hcompletions]
      refine List.Nodup.append h.nodup (nodup_singleton t) ?_
      rw [disjoint_singleton]
      intro hmem
      obtain ⟨task', -, htask, -, -, hdone⟩ := h.done t hmem
      rw [hmoved.known] at htask
      cases htask
      rw [Task.isCompleted, hphase] at hdone
      cases hdone
    · intro u hu
      rw [hcompletions, mem_append] at hu
      rcases hu with hu | hu
      · exact h.done_moved hmoved hu
      · obtain rfl := mem_singleton.mp hu
        refine ⟨_, plan, hmoved.tasks_self, haction, hplan, ?_⟩
        have hnext := hmoved.next
        rw [hphase] at hnext
        cases m <;> cases hnext
        rfl
    · rw [htrim.completed, h.capacity, hid, hcompletions, hkept, length_map, ← map_drop]
      rfl
    · intro u plan' hw hmem
      rw [hdrop, not_or] at hmem
      rw [hmoved.epoch, writes_of_moved hmoved] at hw
      rw [htrim.entries, hout, if_neg hmem.2]
      exact h.kept u plan' hw hmem.1
    · intro u plan' hw hmem
      rw [hdrop] at hmem
      rw [hmoved.epoch, writes_of_moved hmoved] at hw
      rw [htrim.entries, hout]
      rcases hmem with hmem | hmem
      · split
        · rfl
        · exact h.lost u plan' hw hmem
      · rw [if_pos hmem]
  · rw [← hmoved.state] at hstate
    rw [← hmoved.completions] at hcompletions
    have hdrop : d.dropped n = c.dropped n := by
      unfold dropped
      rw [hid, hcompletions]
    refine ⟨?_, ?_, ?_, ?_, ?_, ?_, hselected (by rw [hstate]) (by rw [hstate])⟩
    · rw [hstate]
      exact h.capacity
    · rw [hcompletions]
      exact h.nodup
    · intro u hu
      rw [hcompletions] at hu
      exact h.done_moved hmoved hu
    · rw [hstate, hcompletions, hid]
      exact h.completed
    · intro u plan hw hmem
      rw [hmoved.epoch, writes_of_moved hmoved] at hw
      rw [hdrop] at hmem
      rw [hstate]
      exact h.kept u plan hw hmem
    · intro u plan hw hmem
      rw [hmoved.epoch, writes_of_moved hmoved] at hw
      rw [hdrop] at hmem
      rw [hstate]
      exact h.lost u plan hw hmem

end

end Recalled

/-- Ids that are written once are so in every earlier state. -/
theorem unique_of_step {e : Event} (hdelivered : Delivered c) (hstep : c.Step sha256 e d)
    (h : d.Unique) : c.Unique := by
  intro t u plan plan' epoch epoch' ht hu hid
  rcases step_cases hstep with ⟨r, -, rfl⟩ | ⟨_, _, _, _, _, -, hmoved⟩
  · have hfresh := hdelivered.fresh c.nextTask (Nat.le_refl _)
    exact h t u plan plan' epoch epoch' (writes_start hfresh r ht) (writes_start hfresh r hu) hid
  · exact h t u plan plan' epoch epoch' ((writes_of_moved hmoved).mpr ht)
      ((writes_of_moved hmoved).mpr hu) hid

theorem recalled_run {capacity : ℕ} {stall : Option Duration} {tr : List Event}
    (hrun : CoordinatorRun sha256 capacity stall tr c) (hunique : c.Unique) :
    Recalled sha256 capacity c := by
  obtain ⟨start, hnew, hr⟩ := hrun
  refine hr.history ?_ ?_ hunique
  · intro _
    unfold Coordinator.new at hnew
    split at hnew
    · cases hnew
    · cases hnew
      refine ⟨rfl, nodup_nil, fun t ht => absurd ht not_mem_nil, ?_, ?_, ?_, ?_⟩
      · rw [rtake_nil, map_nil]
        rfl
      · rintro t plan ⟨task, ht, -⟩
        cases ht
      · rintro t plan ⟨task, ht, -⟩
        cases ht
      · exact fun t task ht => by cases ht
  · intro tr c e d hfront ih hstep hunique
    have hrun' : CoordinatorRun sha256 capacity stall tr c := ⟨start, hnew, hfront⟩
    have hdelivered := delivered_run hrun'
    have hc := ih (unique_of_step hdelivered hstep hunique)
    rcases step_cases hstep with ⟨r, -, rfl⟩ | ⟨t, m, task, phase, bytes, -, hmoved⟩
    · exact hc.start (ledger_run hrun') (hdelivered.fresh _ (Nat.le_refl _)) r hunique
    · exact hc.moved hdelivered hmoved

/-! ### Repeats -/

namespace Coordinator

/-- The write is running, or one of the last `n` completed ones of the
current namespace. -/
def Live (c : Coordinator) (n t : ℕ) : Prop := t ∉ c.completions ∨
    t ∈ (c.completions.filter c.isCurrent).rtake n

/-- Every repeat of a live write of the current namespace joins that write. -/
def Retains (sha256 : List UInt8 → Digest) (c : Coordinator) (n : ℕ) : Prop :=
  ∀ t plan r, c.Writes t plan c.epoch → c.Live n t → c.resets r = false → r.plan = some plan →
    (c.dedupe sha256 r).2 = .ok (.join t)

/-- A write id is used in one namespace. -/
def Scoped (c : Coordinator) : Prop :=
  ∀ t u plan plan' epoch epoch', c.Writes t plan epoch → c.Writes u plan' epoch' →
    plan.writeId = plan'.writeId → epoch = epoch'

end Coordinator

/-- A call in the namespace that is selected. -/
theorem opened_of_selected (h : c.resets r = false) : c.opened r = c := by
  rcases c.opened_cases r with hsame | ⟨hepoch, -⟩
  · exact hsame
  · simp [opened, epochOf, h] at hepoch

theorem dedupe_selected (sha256 : List UInt8 → Digest) (hselected : c.resets r = false)
    (hplan : r.plan = some plan) :
    Admission c.state (r.expired sha256 c.state) (r.advanced c.state) plan.writeId
      (fingerprint sha256 plan) c.nextTask (c.dedupe sha256 r) := by
  have hstate : r.opened c.state = c.state := congrArg state (opened_of_selected hselected)
  have hadmission := c.dedupe_plan sha256 hplan
  rwa [hstate] at hadmission

theorem join_of_entry (hselected : c.resets r = false)
    (hplan : r.plan = some plan)
    (he : c.state.entries[plan.writeId]? = some ⟨fingerprint sha256 plan, t⟩) :
    (c.dedupe sha256 r).2 = .ok (.join t) := by
  have hadmission := dedupe_selected sha256 hselected hplan
  generalize c.dedupe sha256 r = decided at hadmission
  cases hadmission with
  | conflict hentry hne =>
    rw [he] at hentry
    cases hentry
    exact absurd rfl hne
  | join hentry heq =>
    rw [he] at hentry
    cases hentry
    rfl
  | expired hnone | execute hnone => cases he.symm.trans hnone

theorem no_join_of_none (hselected : c.resets r = false)
    (hplan : r.plan = some plan) (he : c.state.entries[plan.writeId]? = none) (t : ℕ) :
    (c.dedupe sha256 r).2 ≠ .ok (.join t) := by
  have hadmission := dedupe_selected sha256 hselected hplan
  generalize c.dedupe sha256 r = decided at hadmission
  cases hadmission with
  | conflict hentry | join hentry => cases he.symm.trans hentry
  | expired | execute => exact nofun

theorem Recalled.retains_iff (h : Recalled sha256 n c) (hunique : c.Unique) :
    c.Retains sha256 n ↔ ∀ t ∈ (c.completions.filter c.isCurrent).rtake n,
    t ∉ c.completions.rdrop n := by
  constructor
  · intro hretains t ht hdropped
    have hmem : t ∈ c.completions.filter c.isCurrent := mem_of_mem_drop ht
    obtain ⟨hcompleted, hcurrent⟩ := mem_filter.mp hmem
    obtain ⟨task, plan, htask, haction, hplan, -⟩ := h.done t hcompleted
    have hepoch : task.epoch = c.epoch := by simpa [isCurrent, htask] using hcurrent
    have hwrites : c.Writes t plan c.epoch := ⟨task, htask, haction, hplan, hepoch⟩
    have hselected : c.resets task.request = false :=
      h.selected t task htask (by rw [Request.isPlan, hplan]; rfl) hepoch
    have hgone : plan.writeId ∈ c.dropped n := mem_map.mpr ⟨t, hdropped, hwrites.writeIdOf⟩
    exact no_join_of_none hselected hplan (h.lost t plan hwrites hgone) t
      (hretains t plan task.request hwrites (.inr ht) hselected hplan)
  · intro hrecent t plan r hwrites hlive hselected hplan
    refine join_of_entry hselected hplan (h.kept t plan hwrites fun hmem => ?_)
    -- a dropped completion with its id is its own
    obtain ⟨u, hu, hid⟩ := mem_map.mp hmem
    have hcompleted : u ∈ c.completions := mem_of_mem_take hu
    obtain ⟨plan', epoch, hwrites', hid'⟩ := h.writes hcompleted
    obtain rfl : u = t :=
      hunique u t plan' plan epoch c.epoch hwrites' hwrites (hid'.symm.trans hid)
    rcases hlive with hrunning | hlast
    · exact hrunning hcompleted
    · exact hrecent u hlast hu

/-- **Retained write outcomes.** In every state of every run, every repeat of
a write of the current namespace that is running or among the `capacity` most
recently completed ones joins that write, exactly when not both a completed
write of the current namespace has been dropped and a completion of an
earlier namespace is still kept. A call that joins a write returns its
result, and the result is there once the write has returned. -/
theorem retained_outcomes_iff {sequenceOf : String → ℕ} {capacity : ℕ} {stall : Option Duration}
    {tr : List Event} (hrun : CoordinatorRun sha256 capacity stall tr c)
    (hsequence : Sequenced sequenceOf tr) (hscoped : c.Scoped) : (c.Retains sha256 capacity ↔
      ¬((∃ t ∈ c.completions.rdrop capacity, c.isCurrent t) ∧
        ∃ t ∈ c.completions.rtake capacity, c.isCurrent t = false)) ∧
    ∀ u task t, c.tasks u = some task → task.action = .ok (.join t) →
      (∀ result, task.phase = .returned result →
        ∃ first r, c.tasks t = some first ∧ first.phase = .returned r ∧ SameResult r result) ∧
      ∀ first r, c.tasks t = some first → first.phase = .returned r →
      c.channel t = some (stored r) := by
  have hdelivered := delivered_run hrun
  have hledger := ledger_run hrun
  have hunique : c.Unique := by
    intro t u plan plan' epoch epoch' ht hu hid
    obtain rfl := hscoped t u plan plan' epoch epoch' ht hu hid
    exact hledger.once
      (fun v call hv => hsequence _ (mem_requests (called hrun v call hv))) ht hu hid
  have hrecalled := recalled_run hrun hunique
  refine ⟨(hrecalled.retains_iff hunique).trans (recent_kept_iff hrecalled.nodup _ _), ?_⟩
  intro u task t hu haction
  refine ⟨fun result hphase => ?_, fun first r hfirst hphase => ?_⟩
  · obtain ⟨first, r, hfirst, -, hreturned, hsame⟩ :=
      (sound_run hrun).joined hdelivered hu haction hphase
    exact ⟨first, r, hfirst, hreturned, hsame⟩
  · obtain ⟨plan, plan', ⟨⟨call, hcall, hwrites, -⟩, -, -⟩, -⟩ :=
      hledger.joins u _ t (calls_of_tasks hu) haction
    rw [calls_of_tasks hfirst] at hcall
    cases hcall
    exact hdelivered.finished t first r hfirst hwrites.action
      (by rw [Request.isPlan, show first.request.plan = some plan from hwrites.plan]; rfl) hphase

/-! ### A stale completion -/

theorem scoped_of_home (hfresh : ∀ t, c.nextTask ≤ t → c.tasks t = none) (home : String → ℕ)
    (h : (range c.nextTask).all (fun t => (c.tasks t).all fun task =>
      task.request.plan.all fun plan => task.epoch = home plan.writeId) = true) : c.Scoped := by
  have hhome : ∀ {t plan epoch}, c.Writes t plan epoch → epoch = home plan.writeId := by
    rintro t plan epoch ⟨task, ht, -, hplan, rfl⟩
    have hlt : t < c.nextTask := by
      by_contra hge
      cases ht.symm.trans (hfresh t (Nat.le_of_not_lt hge))
    have hall := all_eq_true.mp h t (mem_range.mpr hlt)
    simpa [ht, hplan] using hall
  intro t u plan plan' epoch epoch' ht hu hid
  rw [hhome ht, hhome hu, hid]

def sampleB : InputPlan := ⟨"input-b-1", sampleOne⟩

/-- Two namespaces, one after the other. -/
def sampleNamespaces : List Event :=
  .flatten [[.call (.control "a" 1 ⟨"input-a-1", sampleTwo⟩)], sampleWrite 0 [2, 1],
    [.call (.control "b" 1 sampleB)], sampleWrite 1 [2]]

theorem retained_outcomes_iff_namespaces :
    ∃ c, CoordinatorRun sampleSha256 1 none sampleNamespaces c ∧ c.Scoped ∧
      c.Writes 1 sampleB c.epoch ∧ c.Retains sampleSha256 1 := by
  have hplay : (play sampleSha256 1 none sampleNamespaces).any (fun c =>
      (range c.nextTask).all (fun t => (c.tasks t).all fun task => task.request.plan.all fun plan =>
        task.epoch = if plan.writeId = "input-a-1" then 1 else 2) &&
      (c.tasks 1).any (fun task => task.action = .ok .execute ∧ task.request.plan = some sampleB ∧
        task.epoch = c.epoch) &&
      decide (c.completions = [1])) = true := by decide +kernel
  obtain ⟨c, hc, hfacts⟩ := (Option.any_eq_true _ _).mp hplay
  simp only [Bool.and_eq_true] at hfacts
  obtain ⟨⟨hhome, hwrites⟩, hcompletions⟩ := hfacts
  obtain ⟨task, htask, hwrites⟩ := (Option.any_eq_true _ _).mp hwrites
  have hrun := play_run hc
  have hscoped := scoped_of_home (delivered_run hrun).fresh
    (fun id => if id = "input-a-1" then 1 else 2) hhome
  have hsequence : Sequenced sampleSequence sampleNamespaces := by
    unfold Sequenced
    decide +kernel
  refine ⟨c, hrun, hscoped, ⟨task, htask, of_decide_eq_true hwrites⟩, ?_⟩
  rw [(retained_outcomes_iff hrun hsequence hscoped).1, of_decide_eq_true hcompletions]
  rintro ⟨⟨t, ht, -⟩, -⟩
  exact absurd ht (by simp [rdrop])

/-- A plan of the first namespace waits between its fragments when the second
namespace is selected; a plan of that one stalls and is completed; then the
first one completes. -/
def sampleStale : List Event :=
  [.call (.control "a" 1 ⟨"input-a-1", sampleTwo⟩), .move 0 .planLocked, .move 0 .executionLocked,
    .move 0 (.writerLocked 10), .move 0 (.accepted 2), .move 0 (.flushed none), .move 0 .resumed,
    .call (.control "b" 1 sampleB), .move 1 .stalled, .move 1 .completed, .move 1 .sent,
    .move 0 .woke, .move 0 .executionLocked, .move 0 (.writerLocked 20), .move 0 (.accepted 1),
    .move 0 (.flushed none), .move 0 .resumed, .move 0 .woke, .move 0 .completed, .move 0 .sent]

/-- With capacity one, the last write completed in namespace `b` is no longer
known, though nothing was completed there after it. -/
theorem stale_completion_drops_outcome :
    ∃ c, CoordinatorRun sampleSha256 1 (some sampleStall) sampleStale c ∧
      c.Writes 1 sampleB c.epoch ∧ c.Live 1 1 ∧ c.resets (.control "b" 1 sampleB) = false ∧
      (c.dedupe sampleSha256 (.control "b" 1 sampleB)).2 =
      .error (.outcomeUnknown "input-b-1") := by
  have hplay : (play sampleSha256 1 (some sampleStall) sampleStale).any (fun c =>
      (c.tasks 1).any (fun task => task.action = .ok .execute ∧ task.request.plan = some sampleB ∧
        task.epoch = c.epoch) &&
      decide (1 ∈ (c.completions.filter c.isCurrent).rtake 1) &&
        !c.resets (.control "b" 1 sampleB) &&
      decide ((c.dedupe sampleSha256 (.control "b" 1 sampleB)).2 =
        .error (.outcomeUnknown "input-b-1"))) = true := by
    decide +kernel
  obtain ⟨c, hc, hfacts⟩ := (Option.any_eq_true _ _).mp hplay
  simp only [Bool.and_eq_true, Bool.not_eq_true', decide_eq_true_eq] at hfacts
  obtain ⟨⟨⟨hwrites, hlive⟩, hselected⟩, hunknown⟩ := hfacts
  obtain ⟨task, htask, hwrites⟩ := (Option.any_eq_true _ _).mp hwrites
  exact ⟨c, play_run hc, ⟨task, htask, of_decide_eq_true hwrites⟩, .inr hlive, hselected, hunknown⟩

end Pohunek.Input
