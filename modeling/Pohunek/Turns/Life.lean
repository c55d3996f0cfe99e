/-
# The life of one turn

A table holds up to eight turns and each call may touch several of them. What
a call does to one turn depends on little: whether the turn is the newest of
its session, its owner, its state. `Call.moves` is that machine of one turn,
and `after_turn` says that every turn of a table follows it: a record after a
call is a record from before it, moved by `Call.moves`, or the turn the call
opened.
-/
import Pohunek.Turns.Table

namespace Pohunek.Turns

open TurnProgress OrderedMap TurnState

/-- The calls on the progress of a session, with their arguments. -/
inductive Call
  | noteActivity (owner : TurnOwner) (previous : Option AgentActivity)
      (next : AgentActivity) (metadata : Metadata)
      (wallNanos window : ℕ) (detectorObserved : Bool)
  | adopt (owner : TurnOwner)
  | depart (owner : TurnOwner)
  | noteInput
  | forgetInput
  | abandonAll
  | abandonRunning (owner : TurnOwner)
  | attachReport (owner : TurnOwner)
  | settle (id : TurnId) (owner : Option TurnOwner) (ended : ℕ)
  | markReported (id : TurnId) (inbox signal : Bool)

def TurnProgress.after (progress : TurnProgress) (now : ℕ) : Call → TurnProgress
  | .noteActivity owner previous next metadata wallNanos window detectorObserved =>
    (progress.noteActivity now owner previous next metadata wallNanos window detectorObserved).1
  | .adopt owner => (progress.adopt now owner).1
  | .depart owner => progress.depart owner
  | .noteInput => progress.noteInput
  | .forgetInput => progress.forgetInput
  | .abandonAll => progress.abandonAll now
  | .abandonRunning owner => progress.abandonRunning owner
  | .attachReport owner => (progress.attachReport now owner).1
  | .settle id owner ended => (progress.settle now ended id owner).1
  | .markReported id inbox signal => progress.markReported now id inbox signal

/-! ### The machine of one turn -/

namespace TurnState

/-- The owner left. -/
def departed : TurnState → TurnState
  | .settling _ => .closed
  | .opened | .paused => .abandoned
  | state => state

/-- The session entered `working`; an unheard one only continues the turn. -/
def worked (heard : Bool) (previous : Option AgentActivity) (now : ℕ) : TurnState → TurnState
  | .paused => if previous = some .blocked then .opened else if heard then .abandoned else .paused
  | .settling deadline => if now < deadline then .opened else if heard then .closed
    else .settling deadline
  | .opened => if heard then .abandoned else .opened
  | state => state

/-- Any other change of activity. -/
def left (previous : Option AgentActivity) (next : AgentActivity) (now window : ℕ)
    (state : TurnState) : TurnState :=
  match previous, next, state with
  | some .working, .working, state => state
  | some .working, .blocked, .opened => .paused
  | some .working, .idle, .opened => .settling (now + window)
  | some .working, _, .opened => .abandoned
  | some .blocked, .idle, .paused => .abandoned
  | _, _, state => state

/-- The session ended. -/
def ended (now : ℕ) : TurnState → TurnState
  | .closed => .closed
  | .settling deadline => if deadline ≤ now then .closed else .abandoned
  | _ => .abandoned

def expired (now : ℕ) : TurnState → TurnState
  | .settling deadline => if now < deadline then .settling deadline else .closed
  | state => state

def Live (state : TurnState) : Prop := state = .opened ∨ state = .paused

instance (state : TurnState) : Decidable state.Live := inferInstanceAs (Decidable (_ ∨ _))

/-- The turn is over for good. -/
def Over (state : TurnState) : Prop := state = .closed ∨ state = .abandoned

variable {state : TurnState}

theorem Over.not_live (h : state.Over) : ¬state.Live := by
  rcases h with rfl | rfl <;> simp [Live]

theorem gone_over (p : Prop) [Decidable p] (h : state.Over) :
    (if p then state.departed else state) = state := by
  rcases h with rfl | rfl <;> exact ite_self _

variable {now : ℕ}

theorem ended_of_over (h : state.Over) : state.ended now = state := by
  rcases h with rfl | rfl <;> rfl

theorem left_over {previous : Option AgentActivity} {next : AgentActivity} {now window : ℕ}
    (h : state.Over) : state.left previous next now window = state := by
  rcases previous with _ | previous
  · rfl
  · rcases h with rfl | rfl <;> cases previous <;> cases next <;> rfl

theorem worked_over {heard : Bool} {previous : Option AgentActivity} (h : state.Over) :
    state.worked heard previous now = state := by
  rcases h with rfl | rfl <;> rfl

theorem expired_over (h : state.Over) : state.expired now = state := by
  rcases h with rfl | rfl <;> rfl

theorem departed_over (state : TurnState) : state.departed.Over := by
  cases state <;> simp [departed, Over]

theorem ended_over (now : ℕ) (state : TurnState) : (state.ended now).Over := by
  cases state with
  | settling deadline => by_cases h : deadline ≤ now <;> simp [ended, Over, h]
  | _ => simp [ended, Over]

theorem expired_live (h : (state.expired now).Live) : state.Live := by
  cases state with
  | settling deadline => by_cases hnow : now < deadline <;> simp [expired, Live, hnow] at h
  | _ => exact h

end TurnState

/-- What a call does to the turn `id` of `owner`. `newest` says whether it is
the newest turn, `heard` whether a `working` may open a turn. -/
def Call.moves (call : Call) (now : ℕ) (newest : Prop) [Decidable newest] (heard : Bool)
    (id : TurnId) (owner : TurnOwner) (state : TurnState) : TurnState :=
  match call with
  | .noteActivity caller previous next _ _ window _ =>
    if newest then
      let state := if owner ≠ caller then state.departed else state
      if next = .working ∧ (previous ≠ some .working ∨ state ≠ .opened) then
        state.worked heard previous now
      else state.left previous next now window
    else state
  | .adopt caller | .depart caller => if newest ∧ owner ≠ caller then state.departed else state
  | .noteInput | .forgetInput | .markReported .. => state
  | .abandonAll => state.ended now
  | .abandonRunning caller => if newest ∧ owner = caller ∧ state.Live then .abandoned else state
  | .attachReport caller =>
    if newest then (if owner ≠ caller then state.departed else state).expired now else state
  | .settle target caller ended =>
    let state := if caller = none then state.ended ended else state
    if target = id then
      (if caller.any (owner ≠ ·) then state.departed else state).expired now else state

/-! ### Records -/

namespace TurnRecord

/-- The turn goes to `state'`: it keeps its owner and its start. A turn that ran
and is abandoned may hand its start back. -/
structure Becomes (record : TurnRecord) (changed : TurnRecord × Option Handback)
    (state' : TurnState) : Prop where
  state : changed.1.state = state'
  owner : changed.1.owner = record.owner := by rfl
  start : changed.1.startedNanos = record.startedNanos := by rfl
  handback : changed.2 = none ∨ record.state.Live ∧ state' = .abandoned ∧
    ∃ started, changed.2 = some ⟨record.startedNanos, started⟩ := by exact .inl rfl

variable (previous : Option AgentActivity) (next : AgentActivity) (metadata : Metadata)
    (now window : ℕ)
  (record : TurnRecord)

theorem becomes_same : record.Becomes (record, none) record.state := ⟨rfl, rfl, rfl, .inl rfl⟩

variable {record} in
theorem becomes_abandoned {state : TurnState} (h : record.state.Live)
    (hstate : .abandoned = state) : record.Becomes record.abandon state := by
  refine ⟨hstate, rfl, rfl, ?_⟩
  cases hholds : record.holdsInput with
  | false => simp [abandon, hholds]
  | true => exact .inr ⟨h, hstate.symm, record.started, by simp [abandon, hholds]⟩

theorem becomes_departed : record.Becomes record.depart record.state.departed := by
  fun_cases TurnRecord.depart record with
  | case2 hstate => exact becomes_abandoned (.inl hstate) (by simp [hstate, TurnState.departed])
  | case3 hstate => exact becomes_abandoned (.inr hstate) (by simp [hstate, TurnState.departed])
  | _ => exact { state := by simp_all [TurnState.departed] }

theorem becomes_gone (p : Prop) [Decidable p] :
    record.Becomes (if p then record.depart else (record, none))
    (if p then record.state.departed else record.state) := by
  split
  · exact record.becomes_departed
  · exact record.becomes_same

theorem becomes_worked :
    record.Becomes (record.enterWorking previous now).1
    (record.state.worked true previous now) := by
  fun_cases TurnRecord.enterWorking previous now record with
  | case2 hstate h => exact becomes_abandoned (.inr hstate) (by simp [hstate, h, TurnState.worked])
  | case5 hstate => exact becomes_abandoned (.inl hstate) (by simp [hstate, TurnState.worked])
  | _ => exact { state := by simp_all [TurnState.worked] }

theorem becomes_left : record.Becomes (record.leaveWorking previous next metadata now window).1
    (record.state.left previous next now window) := by
  fun_cases TurnRecord.leaveWorking previous next metadata now window record with
  | case4 _ hstate => exact becomes_abandoned (.inl hstate) (by simp_all [TurnState.left])
  | case5 hstate => exact becomes_abandoned (.inr hstate) (by simp [hstate, TurnState.left])
  | _ => exact { state := by simp_all [TurnState.left] }

theorem becomes_expired : record.Becomes (record.expire now, none) (record.state.expired now) := by
  fun_cases TurnRecord.expire now record with
  | _ => exact { state := by simp_all [TurnState.expired] }

theorem live_iff : record.live = true ↔ record.state.Live := by
  simp [live, TurnState.Live]

end TurnRecord

@[simp] theorem TurnTable.giveBack_fields {table : TurnTable} (handback : Option Handback) :
    (table.giveBack handback).records = table.records ∧
    (table.giveBack handback).newest = table.newest ∧
    (table.giveBack handback).nextId = table.nextId := by
  cases handback <;> exact ⟨rfl, rfl, rfl⟩

/-! ### Edits of a table -/

/-- What becomes of the state of each turn. -/
abbrev Machine := TurnId → TurnOwner → TurnState → TurnState

variable {f : Machine} {table table' : TurnTable}

/-- The records of `table'` are those of `table`, their states moved by `f`. -/
structure Follows (f : Machine) (table table' : TurnTable) : Prop where
  newest : table'.newest = table.newest
  nextId : table'.nextId = table.nextId
  records : ∀ {id record'}, table'.records.get id = some record' → ∃ record,
    table.records.get id = some record ∧
    record'.owner = record.owner ∧ record'.startedNanos = record.startedNanos ∧
    record'.state = f id record.owner record.state

/-- The input evidence after an edit: kept, discarded, or handed back by a turn
that ran and is abandoned. -/
def TurnTable.Gives (table table' : TurnTable) : Prop :=
  (table'.token = table.token ∧ table'.returnedStart = table.returnedStart) ∨
  (table'.token = false ∧ table'.returnedStart = none) ∨
  table'.token ∧ ∃ id record started, table.records.get id = some record ∧ record.state.Live ∧
    table'.returnedStart = some ⟨record.startedNanos, started⟩ ∧
    ∀ record', table'.records.get id = some record' → record'.state = .abandoned

/-- One edit: what is over stays so, and only the newest turn runs again. -/
structure Edit (f : Machine) (table table' : TurnTable) : Prop
    extends Follows f table table' where
  gives : table.Gives table'
  stays : ∀ id owner {state}, state.Over → f id owner state = state
  runs : ∀ id owner {state}, (f id owner state).Live → state.Live ∨ table.newest = some id

namespace Edit

theorem refl (table : TurnTable) : Edit (fun _ _ state => state) table table where
  newest := rfl
  nextId := rfl
  records {_ record'} h := ⟨record', h, rfl, rfl, rfl⟩
  gives := .inl ⟨rfl, rfl⟩
  stays _ _ _ _ := rfl
  runs _ _ _ h := .inl h

variable {f : TurnRecord → TurnRecord × Option Handback} {g : TurnOwner → TurnState → TurnState}

theorem change (id : TurnId)
    (hf : ∀ record : TurnRecord, record.Becomes (f record) (g record.owner record.state))
    (hover : ∀ owner {state}, state.Over → g owner state = state)
    (hruns : ∀ owner {state}, (g owner state).Live → state.Live ∨ table.newest = some id) :
    Edit (fun id' owner state => if id' = id then g owner state else state) table
    (table.change id f) where
  newest := (TurnTable.giveBack_fields _).2.1
  nextId := (TurnTable.giveBack_fields _).2.2
  records {id' record'} h := by
    rw [TurnTable.change, (TurnTable.giveBack_fields _).1] at h
    by_cases hid : id' = id
    · rw [hid, get_modify_self] at h
      obtain ⟨record, hrecord, rfl⟩ := Option.map_eq_some_iff.mp h
      exact ⟨record, hid ▸ hrecord, (hf record).owner,
        (hf record).start, by rw [(hf record).state, if_pos hid]⟩
    · rw [get_modify_of_ne hid] at h
      exact ⟨record', h, rfl, rfl, by rw [if_neg hid]⟩
  gives := by
    unfold TurnTable.change
    cases hrecord : table.records.get id with
    | none => exact .inl ⟨rfl, rfl⟩
    | some record =>
      rcases (hf record).handback with hnone | ⟨hlive, habandoned, started, hsome⟩
      · exact .inl (by simp [hnone, TurnTable.giveBack])
      · refine .inr (.inr ⟨by simp [hsome, TurnTable.giveBack], id, record, started, hrecord, hlive,
          by simp [hsome, TurnTable.giveBack], fun record' h => ?_⟩)
        rw [(TurnTable.giveBack_fields _).1, get_modify_self, hrecord] at h
        rw [← Option.some.inj h, (hf record).state, habandoned]
  stays id' owner state h := by
    split
    · exact hover owner h
    · rfl
  runs id' owner state h := by
    split at h
    · rename_i hid
      exact hid ▸ hruns owner h
    · exact .inl h

theorem changeNewest (table : TurnTable)
    (hf : ∀ record : TurnRecord, record.Becomes (f record) (g record.owner record.state))
    (hover : ∀ owner {state}, state.Over → g owner state = state) :
    Edit (fun id owner state => if table.newest = some id then g owner state else state) table
    (table.changeNewest f) := by
  unfold TurnTable.changeNewest
  cases hnewest : table.newest with
  | none => simpa using refl table
  | some id =>
    have h := change id hf hover fun _ _ _ => .inr hnewest
    simpa only [Option.some.injEq, eq_comm] using h

/-- The newest turn departs when it is of another owner. -/
theorem depart (table : TurnTable) (owner : TurnOwner) :
    Edit (fun id owner' state => if table.newest = some id then
      if owner' ≠ owner then state.departed else state else state) table (table.departChanged owner) := by
  exact changeNewest table (g := fun owner' state => if owner' ≠ owner then state.departed
    else state) (fun record => record.becomes_gone _) fun owner' _ h => gone_over _ h

/-- All records are changed and the input evidence is discarded. -/
theorem mapped {f : TurnRecord → TurnRecord} {g : TurnState → TurnState}
    (hget : ∀ id, table'.records.get id = (table.records.get id).map f)
    (hf : ∀ record, (f record).owner = record.owner ∧
    (f record).startedNanos = record.startedNanos ∧
      (f record).state = g record.state)
    (hover : ∀ {state}, state.Over → g state = state)
    (hruns : ∀ {state}, (g state).Live → state.Live)
    (hsame : (table'.newest, table'.nextId, table'.token, table'.returnedStart) =
      (table.newest, table.nextId, false, none) := by rfl) :
    Edit (fun _ _ state => g state) table table' := by
  simp only [Prod.mk.injEq] at hsame
  refine ⟨⟨hsame.1, hsame.2.1, fun {id record'} h => ?_⟩, .inr (.inl hsame.2.2), fun _ _ _ => hover,
    fun _ _ _ h => .inl (hruns h)⟩
  rw [hget] at h
  obtain ⟨record, hrecord, rfl⟩ := Option.map_eq_some_iff.mp h
  exact ⟨record, hrecord, hf record⟩

theorem discardInput (table : TurnTable) :
    Edit (fun _ _ state => state) table table.discardInput := by
  refine mapped (g := fun state => state) (fun id => get_mapWithKey ..) (fun record => ?_)
    (fun _ => rfl) fun h => h
  exact ⟨rfl, rfl, rfl⟩

theorem abandonAll (table : TurnTable) (now : ℕ) :
    Edit (fun _ _ state => state.ended now) table (table.abandonAll now) := by
  have hget : ∀ id, (table.abandonAll now).records.get id = (table.records.get id).map _ :=
    fun id => by
    rw [TurnTable.abandonAll, TurnTable.discardInput, get_mapWithKey, get_mapWithKey,
      Option.map_map]
  refine mapped hget (fun record => ⟨rfl, rfl, ?_⟩) ended_of_over
    fun h => absurd h (ended_over now _).not_live
  rcases record with ⟨_, _, _, _, _, state, _, _, _, _⟩
  cases state <;> rfl

end Edit

/-- Edits one after the other, which together move the states by a function. -/
inductive Edits (table : TurnTable) : Machine → TurnTable → Prop
  | refl : Edits table (fun _ _ state => state) table
  | snoc {f g k : Machine} {table' table'' : TurnTable} (h : Edits table f table')
      (hedit : Edit g table' table'')
      (hk : ∀ id record record', table.records.get id = some record →
        table'.records.get id = some record' → record'.state = f id record.owner record.state →
        k id record.owner record.state = g id record.owner record'.state) : Edits table k table''

theorem Edits.single {k : Machine} (h : Edit f table table')
    (hk : ∀ id owner state, k id owner state = f id owner state) : Edits table k table' :=
  .snoc .refl h fun id record record' _ _ hstate => by rw [hstate, hk]

theorem Edits.trans {g : Machine} {table'' : TurnTable} (h : Edits table f table')
    (hedit : Edit g table' table'') :
    Edits table (fun id owner state => g id owner (f id owner state)) table'' :=
  .snoc h hedit fun id record record' _ _ hstate => by rw [hstate]

theorem Edits.follows (h : Edits table f table') : Follows f table table' := by
  induction h with
  | refl => exact (Edit.refl table).toFollows
  | snoc _ hedit hk ih =>
    refine ⟨hedit.newest.trans ih.newest, hedit.nextId.trans ih.nextId, fun {id record''} h => ?_⟩
    obtain ⟨record', h', howner', hstart', hstate'⟩ := hedit.records h
    obtain ⟨record, hrecord, howner, hstart, hstate⟩ := ih.records h'
    refine ⟨record, hrecord, howner'.trans howner, hstart'.trans hstart, ?_⟩
    rw [hstate', howner, hk id record record' hrecord h' hstate]

/-- Ids are numbered up to `next_id`, and only the newest turn runs. -/
structure TurnTable.WellFormed (table : TurnTable) : Prop where
  numbered : ∀ (id : ℕ) record, table.records.get id = some record → id ≤ table.nextId
  newestRuns : ∀ id record, table.records.get id = some record → record.state.Live →
    table.newest = some id

theorem Edit.wellFormed (h : Edit f table table') (hwf : table.WellFormed) : table'.WellFormed where
  numbered id record' h' := by
    obtain ⟨record, hrecord, -⟩ := h.records h'
    exact h.nextId ▸ hwf.numbered id record hrecord
  newestRuns id record' h' hlive := by
    obtain ⟨record, hrecord, -, -, hstate⟩ := h.records h'
    rw [h.newest]
    exact (h.runs id record.owner (hstate ▸ hlive)).elim
      (hwf.newestRuns id record hrecord) fun hnewest => hnewest

theorem Edits.wellFormed (h : Edits table f table') (hwf : table.WellFormed) :
    table'.WellFormed := by
  induction h with
  | refl => exact hwf
  | snoc _ hedit _ ih => exact hedit.wellFormed ih

namespace TurnTable

variable {id : TurnId}

theorem newestRecord_of {record : TurnRecord} (hnewest : table.newest = some id)
    (hrecord : table.records.get id = some record) : table.newestRecord = some (id, record) := by
  simp [newestRecord, hnewest, hrecord]

/-- Taking the evidence leaves the owners and the states. -/
theorem takeToken_get {id' : TurnId} {record' : TurnRecord}
    (h : (table.takeToken id).records.get id' = some record') :
    ∃ record, table.records.get id' = some record ∧ record'.owner = record.owner ∧
    record'.state = record.state := by
  rw [takeToken] at h
  split at h
  · by_cases hid : id' = id
    · subst hid
      rw [get_modify_self] at h
      obtain ⟨record, hrecord, rfl⟩ := Option.map_eq_some_iff.mp h
      refine ⟨record, hrecord, ?_, ?_⟩ <;> split <;> rfl
    · rw [get_modify_of_ne hid] at h
      exact ⟨record', h, rfl, rfl⟩
  · exact ⟨record', h, rfl, rfl⟩

@[simp] theorem takeToken_fields : (table.takeToken id).newest = table.newest ∧
    (table.takeToken id).nextId = table.nextId := by
  unfold takeToken
  split <;> exact ⟨rfl, rfl⟩

/-- A record after a turn opened is an earlier one, or the new one. -/
theorem openTurn_get {owner : TurnOwner} {startedNanos : Option ℕ} {now : ℕ} {record' : TurnRecord}
    (h : (table.openTurn owner startedNanos now).1.records.get id = some record') :
    table.records.get id = some record' ∨
      id = table.nextId + 1 ∧ record'.state = .opened ∧ record'.startedNanos = startedNanos := by
  rcases get_insert_eq_some_iff.mp (get_of_keepLast h) with ⟨rfl, rfl⟩ | ⟨-, hold⟩
  · exact .inr ⟨rfl, rfl, rfl⟩
  · exact .inl hold

end TurnTable

/-! ### What a call does -/

/-- The session enters `working`, or is said to work on. -/
def Call.entersWorking : Call → Bool
  | noteActivity _ _ .working _ _ _ _ => true
  | _ => false

/-- Output that the detector saw, as against a change that is known. -/
def Call.observed : Call → Bool
  | noteActivity _ _ _ _ _ _ detectorObserved => detectorObserved
  | _ => false

/-- The newest turn does not run. -/
def TurnTable.Idle (table : TurnTable) : Prop :=
  ∀ id record, table.newest = some id → table.records.get id = some record → ¬record.state.Live

/-- What a call does once its edits have led to the table `table`. -/
inductive Effect (progress : TurnProgress) (now : ℕ) (call : Call) (table : TurnTable) :
    TurnProgress → Prop
  | edited (after : TurnProgress) (htable : after.table = table)
      (hfloor : after.recordStartFloor = progress.recordStartFloor) :
      Effect progress now call table after
  | input (hcall : call = .noteInput) :
      Effect progress now call table
      { progress with table := { table with token := true, returnedStart := none } }
  | adopted (owner : TurnOwner) (hidle : table.Idle) (hcall : call = .adopt owner) :
      Effect progress now call table { progress with table := (table.openTurn owner none now).1 }
  | opened (after : TurnProgress) (owner : TurnOwner) (wallNanos : ℕ) (hidle : table.Idle)
      (hcall : call.entersWorking ∧ (call.observed → table.token))
      (htable : after.table =
      (table.openTurn owner (nonZero (progress.startNanos wallNanos)) now).1.takeToken
        (table.nextId + 1)) (hfloor : after.recordStartFloor = progress.startNanos wallNanos) :
      Effect progress now call table after

section Effect

variable {progress after : TurnProgress} {now : ℕ} {call : Call}
    (h : Effect progress now call table after)
include h

/-- The call opens the next turn or leaves the newest one. -/
theorem Effect.newest : (after.table.nextId = table.nextId ∧ after.table.newest = table.newest) ∨
    after.table.nextId = table.nextId + 1 ∧ after.table.newest = some (table.nextId + 1) ∧
      table.Idle ∧ (call.entersWorking ∨ ∃ owner, call = .adopt owner) := by
  cases h with
  | edited _ htable => exact .inl (htable ▸ ⟨rfl, rfl⟩)
  | input => exact .inl ⟨rfl, rfl⟩
  | adopted owner hidle hcall => exact .inr ⟨rfl, rfl, hidle, .inr ⟨owner, hcall⟩⟩
  | opened _ _ _ hidle hcall htable =>
    rw [htable]
    exact .inr ⟨by simp [TurnTable.openTurn], by simp [TurnTable.openTurn], hidle, .inl hcall.1⟩

theorem Effect.get {id : TurnId} {record' : TurnRecord}
    (hget : after.table.records.get id = some record') :
    (∃ record, table.records.get id = some record ∧ record'.owner = record.owner ∧
      record'.state = record.state) ∨
      id = table.nextId + 1 ∧ after.table.nextId = id ∧ after.table.newest = some id ∧
      record'.state = .opened := by
  cases h with
  | edited _ htable => exact .inl ⟨record', htable ▸ hget, rfl, rfl⟩
  | input => exact .inl ⟨record', hget, rfl, rfl⟩
  | adopted =>
    rcases TurnTable.openTurn_get hget with hold | ⟨rfl, hopened, -⟩
    · exact .inl ⟨record', hold, rfl, rfl⟩
    · exact .inr ⟨rfl, rfl, rfl, hopened⟩
  | opened _ _ _ _ _ htable =>
    rw [htable] at hget ⊢
    obtain ⟨record, hrecord, howner, hstate⟩ := TurnTable.takeToken_get hget
    rcases TurnTable.openTurn_get hrecord with hold | ⟨rfl, hopened, -⟩
    · exact .inl ⟨record, hold, howner, hstate⟩
    · exact .inr ⟨rfl, by simp [TurnTable.openTurn], by simp [TurnTable.openTurn],
        hstate.trans hopened⟩

end Effect

/-! ### Every turn follows its machine -/

/-- What a call does to the turns of a session. -/
def TurnProgress.moves (progress : TurnProgress) (now : ℕ) (call : Call) (heard : Bool)
    (id : TurnId) (owner : TurnOwner) (state : TurnState) : TurnState :=
  call.moves now (progress.table.newest = some id) heard id owner state

section After

variable {progress : TurnProgress} {now : ℕ} {call : Call} {id : ℕ} {record' : TurnRecord}

variable {previous : Option AgentActivity}

/-- An unheard `working` that does not continue the newest turn leaves it. -/
theorem worked_unheard {table : TurnTable} {record : TurnRecord}
    (hnewest : table.newestRecord = some (id, record))
    (h : continuesTurn table previous now = false) :
    record.state.worked false previous now = record.state := by
  rw [continuesTurn, hnewest, Option.any_some] at h
  cases hstate : record.state with
  | paused => simp_all [TurnState.worked]
  | settling deadline => simp_all [TurnState.worked]
  | _ => rfl

theorem enterWorking_resumes (previous : Option AgentActivity) (now : ℕ) (record : TurnRecord) :
    (record.enterWorking previous now).2 = match record.state with
      | .paused => decide (previous = some .blocked)
      | .settling deadline => decide (now < deadline)
      | _ => false := by
  fun_cases TurnRecord.enterWorking previous now record <;> simp_all

theorem enterWorking_not_live {record : TurnRecord}
    (h : (record.enterWorking previous now).2 = false) :
    ¬(record.state.worked true previous now).Live := by
  rw [enterWorking_resumes] at h
  cases hstate : record.state <;> simp_all [TurnState.worked, TurnState.Live, Nat.not_lt.mpr]

theorem token_changeNewest {table : TurnTable} (h : table.token)
    (f : TurnRecord → TurnRecord × Option Handback) : (table.changeNewest f).token := by
  unfold TurnTable.changeNewest TurnTable.change TurnTable.giveBack
  split
  · split
    · rfl
    · exact h
  · exact h

/-- `note_activity` moves the newest turn after the departure of its owner. -/
theorem moves_departed {owner : TurnOwner} {next : AgentActivity} {metadata : Metadata}
    {wallNanos window : ℕ} {detectorObserved : Bool} {record departed : TurnRecord} (heard : Bool)
    (h : (progress.table.departChanged owner).records.get id = some departed)
    (hstate : departed.state = if progress.table.newest = some id then
      if record.owner ≠ owner then record.state.departed else record.state else record.state) :
    progress.moves now
      (.noteActivity owner previous next metadata wallNanos window detectorObserved) heard id
      record.owner record.state =
    if (progress.table.departChanged owner).newest = some id then
      if next = .working ∧ (previous ≠ some .working ∨
        ¬(progress.table.departChanged owner).newestRecord.any (·.2.state = .opened)) then
        departed.state.worked heard previous now
      else departed.state.left previous next now window
    else departed.state := by
  rw [(Edit.depart progress.table owner).newest, moves, Call.moves]
  by_cases hnewest : progress.table.newest = some id
  · rw [TurnTable.newestRecord_of ((Edit.depart progress.table owner).newest.trans hnewest) h]
    simp [hnewest, hstate]
  · simp [hnewest, hstate]

/-- **What a call does**: edits, by which every turn follows its machine, and
then it notes input, opens a turn or does nothing more. -/
theorem after_edits (progress : TurnProgress) (now : ℕ) (call : Call) :
    ∃ table heard, Edits progress.table (progress.moves now call heard) table ∧
      Effect progress now call table (progress.after now call) := by
  have hdepart : ∀ owner call, (∀ id owner' state, progress.moves now call true id owner' state =
      if progress.table.newest = some id ∧ owner' ≠ owner then state.departed else state) →
      Edits progress.table (progress.moves now call true) (progress.table.departChanged owner) :=
    fun owner call hmoves =>
    .single (.depart _ owner) fun id owner' state => by rw [hmoves, ite_and]
  cases call with
  | noteActivity owner previous next metadata wallNanos window detectorObserved =>
    set call := Call.noteActivity owner previous next metadata wallNanos window
      detectorObserved with hcall
    have hdepart := Edits.single (.depart progress.table owner) fun _ _ _ => rfl
    have hfloor : (if next = .working ∧ previous ≠ some .working then
        { progress with turnStartedNanos := progress.startNanos wallNanos }
          else progress).recordStartFloor =
        progress.recordStartFloor := by split <;> rfl
    simp only [hcall, after, noteActivity]
    rw [← hcall]
    split
    · rename_i henters
      have henter := Edit.changeNewest (progress.table.departChanged owner)
        (g := fun _ state => state.worked true previous now)
        (fun record => record.becomes_worked previous now) fun _ _ h => worked_over h
      have hedits : Edits progress.table (progress.moves now call true) _ :=
        hdepart.snoc henter fun id record departed _ hdeparted hstate => by
          rw [moves_departed true hdeparted hstate, if_pos henters]
      split
      · -- nobody asked for the output
        refine ⟨_, false, hdepart.snoc (.refl _) fun id record departed _ hdeparted hstate => ?_,
          .edited _ rfl hfloor⟩
        rw [moves_departed false hdeparted hstate, if_pos henters]
        split
        · exact worked_unheard (TurnTable.newestRecord_of ‹_› hdeparted) (by simp_all)
        · rfl
      · rename_i hheard
        unfold enterWorking
        cases hresumes : (progress.table.departChanged owner).newestRecord.any fun newest =>
            (newest.2.enterWorking previous now).2 with
        | true => exact ⟨_, true, hedits, .edited _ rfl hfloor⟩
        | false =>
          refine ⟨_, true, hedits, .opened _ owner wallNanos (fun id record hnewest hrecord => ?_)
            ⟨by simp [call, Call.entersWorking, henters.1], fun hobserved => ?_⟩ rfl rfl⟩
          · obtain ⟨departed, hdeparted, -, -, hstate⟩ := henter.records hrecord
            rw [henter.newest] at hnewest
            rw [TurnTable.newestRecord_of hnewest hdeparted, Option.any_some] at hresumes
            rw [hstate, if_pos hnewest]
            exact enterWorking_not_live hresumes
          · rw [funext fun newest : TurnId × TurnRecord =>
              enterWorking_resumes previous now newest.2] at hresumes
            have hresumes : continuesTurn (progress.table.departChanged owner) previous now =
              false := hresumes
            have hobserved : detectorObserved := hobserved
            exact token_changeNewest (by simpa [hobserved, hresumes] using hheard) _
    · rename_i hleaves
      refine ⟨_, true,
        hdepart.snoc (.changeNewest _ (g := fun _ state => state.left previous next now window)
        (fun record => record.becomes_left previous next metadata now window) fun _ _ h =>
        left_over h) fun id record departed _ hdeparted hstate => ?_, .edited _ rfl hfloor⟩
      rw [moves_departed true hdeparted hstate, if_neg hleaves]
  | adopt owner =>
    refine ⟨_, true, hdepart owner _ fun _ _ _ => rfl, ?_⟩
    rw [after, adopt]
    split
    · exact .edited _ rfl rfl
    · rename_i hrunning
      refine .adopted owner (fun id record hnewest hrecord => ?_) rfl
      rwa [TurnTable.newestRecord_of hnewest hrecord, Option.any_some, record.live_iff] at hrunning
  | depart owner => exact ⟨_, true, hdepart owner _ fun _ _ _ => rfl, .edited _ rfl rfl⟩
  | noteInput => exact ⟨_, true, .refl, .input rfl⟩
  | forgetInput => exact ⟨_, true, .single (.discardInput _) fun _ _ _ => rfl, .edited _ rfl rfl⟩
  | abandonAll => exact ⟨_, true, .single (.abandonAll _ now) fun _ _ _ => rfl, .edited _ rfl rfl⟩
  | abandonRunning owner =>
    refine ⟨_, true, .single (.changeNewest _ (g := fun owner' state =>
      if owner' = owner ∧ state.Live then .abandoned
        else state) (fun record => ?_) fun owner' state h => ?_)
      fun id owner' state => ?_, .edited _ rfl rfl⟩
    · simp only [record.live_iff]
      split
      · rename_i hrunning
        exact TurnRecord.becomes_abandoned hrunning.2 rfl
      · exact record.becomes_same
    · exact if_neg fun hrunning => h.not_live hrunning.2
    · simp only [moves, Call.moves, ite_and]
  | attachReport owner =>
    have hexpire := Edit.changeNewest (progress.table.departChanged owner)
      (g := fun _ state => state.expired now)
      (fun record => record.becomes_expired now) fun _ _ h => expired_over h
    refine ⟨_, true,
      (Edits.single (.depart _ owner) fun _ _ _ => rfl).snoc hexpire
      fun id record record' _ _ hstate => ?_, .edited _ rfl rfl⟩
    rw [(Edit.depart progress.table owner).newest, hstate]
    by_cases hnewest : progress.table.newest = some id
    · simp [moves, Call.moves, hnewest]
    · simp [moves, Call.moves, hnewest]
  | settle target owner ended =>
    have hend : Edits progress.table
      (fun _ _ state => if owner = none then state.ended ended else state)
        (if owner = none then progress.table.abandonAll ended else progress.table) := by
      split
      · exact .single (.abandonAll _ ended) fun _ _ _ => rfl
      · exact .refl
    have hgoes : ∀ table : TurnTable, Edit (fun id owner' state => if id = target then
        if owner.any (owner' ≠ ·) then state.departed else state
          else state) table (table.change target fun record =>
          if owner.any (record.owner ≠ ·) then record.depart else (record, none)) := by
      refine fun table => .change target
        (g := fun owner' state => if owner.any (owner' ≠ ·) then state.departed else state)
        (fun record => record.becomes_gone _)
        (fun _ _ h => gone_over _ h) fun owner' state h => .inl ?_
      split at h
      · exact absurd h (departed_over _).not_live
      · exact h
    refine ⟨_, true,
      .snoc (hend.trans (hgoes _))
      (.change target (g := fun _ state => state.expired now)
      (fun record => record.becomes_expired now)
        (fun _ _ h => expired_over h) fun _ _ h => .inl (expired_live h))
      fun id record record' _ _ hstate => ?_, .edited _ rfl rfl⟩
    rw [hstate]
    by_cases hid : target = id
    · simp [moves, Call.moves, hid]
    · simp [moves, Call.moves, hid, Ne.symm hid]
  | markReported target inbox signal =>
    refine ⟨_, true,
      .single (.change target (g := fun _ state => state) (fun _ => ⟨rfl, rfl, rfl, .inl rfl⟩)
      (fun _ _ _ => rfl) fun _ _ => .inl) fun id owner' state => ?_, .edited _ rfl rfl⟩
    simp only [moves, Call.moves, ite_self]

/-- The record of `id` after a call, traced back to before it. -/
def Traced (progress : TurnProgress) (now : ℕ) (call : Call) (id : TurnId)
    (record' : TurnRecord) : Prop :=
  ∃ record heard, progress.table.records.get id = some record ∧ record'.owner = record.owner ∧
    record'.state = call.moves now
    (progress.table.newest = some id) heard id record.owner record.state

/-- The turn `id` was opened by the call. -/
def Opened (progress : TurnProgress) (now : ℕ) (call : Call) (id : ℕ)
    (record' : TurnRecord) : Prop :=
  id = progress.table.nextId + 1 ∧ (progress.after now call).table.nextId = id ∧
    (progress.after now call).table.newest = some id ∧ record'.state = .opened

/-- **Every turn follows its machine.** A record after a call is a record from
before it, moved, or that of the turn the call opened. -/
theorem after_turn (h : (progress.after now call).table.records.get id = some record') :
    Traced progress now call id record' ∨ Opened progress now call id record' := by
  obtain ⟨table, heard, hedits, heffect⟩ := after_edits progress now call
  rcases heffect.get h with ⟨edited, hedited, howner, hstate⟩ | hopened
  · obtain ⟨record, hrecord, howner', -, hstate'⟩ := hedits.follows.records hedited
    exact .inl ⟨record, heard, hrecord, howner.trans howner', hstate.trans hstate'⟩
  · rw [hedits.follows.nextId] at hopened
    exact .inr hopened

/-- A call opens the next turn or leaves the newest one. -/
theorem after_newest (progress : TurnProgress) (now : ℕ) (call : Call) :
    ((progress.after now call).table.nextId = progress.table.nextId ∧
      (progress.after now call).table.newest = progress.table.newest) ∨
    ((progress.after now call).table.nextId = progress.table.nextId + 1 ∧
      (progress.after now call).table.newest = some (progress.table.nextId + 1)) := by
  obtain ⟨table, heard, hedits, heffect⟩ := after_edits progress now call
  rw [← hedits.follows.nextId, ← hedits.follows.newest]
  exact heffect.newest.imp_right fun h => ⟨h.1, h.2.1⟩

theorem wellFormed_new : new.table.WellFormed :=
  ⟨by simp [new, TurnTable.new], by simp [new, TurnTable.new]⟩

theorem wellFormed_after (hwf : progress.table.WellFormed) :
    (progress.after now call).table.WellFormed := by
  obtain ⟨table, heard, hedits, heffect⟩ := after_edits progress now call
  have hwf := hedits.wellFormed hwf
  refine ⟨fun id record' h => ?_, fun id record' h hlive => ?_⟩
  · rcases heffect.get h with ⟨record, hrecord, -⟩ | ⟨-, hnext, -⟩
    · have := hwf.numbered id record hrecord
      rcases heffect.newest with ⟨hnext, -⟩ | ⟨hnext, -⟩ <;> omega
    · exact hnext.ge
  · rcases heffect.get h with ⟨record, hrecord, -, hstate⟩ | ⟨-, -, hnewest, -⟩
    · -- a running turn was the newest one, and no other is opened beside it
      have hnewest := hwf.newestRuns id record hrecord (hstate ▸ hlive)
      rcases heffect.newest with ⟨-, hsame⟩ | ⟨-, -, hidle, -⟩
      · exact hsame.trans hnewest
      · exact absurd (hstate ▸ hlive) (hidle id record hnewest hrecord)
    · exact hnewest

end After

end Pohunek.Turns
