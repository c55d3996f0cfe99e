/-
# Compaction is not observable

A compaction drops deleted records from memory and from the log, so two
stores that were compacted at different times agree on the records that are
not deleted (`live`) and on the contributions, and on nothing else
(`SameLive`). No operation looks at more than that: a create is planned from
the live records (`createPlan_live`), the other operations look up or filter
records that are not deleted. So both stores give the same answers and agree
again after every operation (`sameLive_perform`), whichever of them is
compacted in between (`SameLive.compact_left`).
-/
import Pohunek.Notifications.Codec

namespace Pohunek.Notifications

open Store List Std.ExtTreeMap NotificationStatus

/-! ### The records that are not deleted -/

def notDeleted (record : NotificationRecord) : Bool := record.status ≠ .deleted

/-- The records that are not deleted. -/
def live (records : Records) : Records := records.filter fun _ record => notDeleted record

/-- Every record is stored under its id. -/
def Keyed (records : Records) : Prop :=
  ∀ (k : String) (r : NotificationRecord), records[k]? = some r → r.id = k

theorem live_get (m : Records) (k : String) : (live m)[k]? = m[k]?.filter notDeleted := by
  unfold live
  rw [Std.ExtTreeMap.getElem?_filter]
  cases m[k]? <;> simp [Option.pfilter, Option.filter]

variable {m : Records} {r : NotificationRecord}

theorem live_get_some {k : String} :
    (live m)[k]? = some r ↔ m[k]? = some r ∧ notDeleted r := by
  rw [live_get, Option.filter_eq_some_iff]

theorem live_list (m : Records) : (live m).list = m.list.filter notDeleted := by
  unfold live Records.list
  rw [toList_filter, filter_map]
  rfl

/-- What is live after an insertion depends on what was live before it. -/
theorem live_put {m' : Records} (h : live m = live m') (r : NotificationRecord) :
    live (m.put r) = live (m'.put r) := by
  refine ext_getElem? fun k => ?_
  have hk : (live m)[k]? = (live m')[k]? := by rw [h]
  rw [live_get, live_get] at hk
  rw [live_get, live_get, put_get, put_get]
  split
  · rfl
  · exact hk

variable {actions : List StoreAction}

theorem live_foldl : ∀ {m m' : Records}, live m = live m' →
    live (actions.foldl applyAction m) = live (actions.foldl applyAction m') := by
  have hrecords : ∀ (rs : List NotificationRecord) {m m' : Records}, live m = live m' →
      live (rs.foldl Records.put m) = live (rs.foldl Records.put m') := by
    intro rs
    induction rs with
    | nil => exact fun h => h
    | cons r rs ih => exact fun h => ih (live_put h r)
  induction actions with
  | nil => exact fun h => h
  | cons a actions ih =>
    intro m m' h
    rw [foldl_cons, foldl_cons, applyAction_eq, applyAction_eq]
    exact ih (hrecords a.records h)

theorem Keyed.empty : Keyed ∅ := by
  intro k r h
  simp at h

theorem Keyed.put (h : Keyed m) (r : NotificationRecord) : Keyed (m.put r) := by
  intro k r' hk
  rw [put_get] at hk
  split at hk
  · rename_i hid
    cases hk
    exact hid
  · exact h k r' hk

theorem Keyed.puts : ∀ (rs : List NotificationRecord) {m : Records}, Keyed m →
    Keyed (rs.foldl Records.put m)
  | [], _, h => h
  | r :: rs, _, h => Keyed.puts rs (h.put r)

theorem Keyed.apply (h : Keyed m) (a : StoreAction) : Keyed (applyAction m a) := by
  rw [applyAction_eq]
  exact h.puts a.records

theorem Keyed.foldl : ∀ (actions : List StoreAction) {m : Records}, Keyed m →
    Keyed (actions.foldl applyAction m)
  | [], _, h => h
  | a :: actions, _, h => Keyed.foldl actions (h.apply a)

/-! ### What the operations read -/

theorem findExistingSource_live (m : Records) (candidate : NotificationRecord) :
    findExistingSource (live m) candidate = findExistingSource m candidate := by
  unfold findExistingSource
  split
  · rfl
  · rw [live_list, find?_filter]
    congr 1
    funext record
    by_cases hd : record.status = .deleted <;> simp [notDeleted, hd]

theorem supersedeUnreadRecords_live (m : Records) (dedupeKey : String) (kind : NotificationKind)
    (supersededBy now : String) :
    supersedeUnreadRecords (live m) dedupeKey kind supersededBy now =
      supersedeUnreadRecords m dedupeKey kind supersededBy now := by
  unfold supersedeUnreadRecords
  rw [live_list, filter_filter]
  congr 2
  funext record
  by_cases hd : record.status = .unread <;> simp [notDeleted, hd]

theorem active_notDeleted (h : r.status.active) : notDeleted r := by
  unfold notDeleted
  cases hs : r.status <;> simp_all [active]

theorem findMerge_live (E : Rfc3339) (incomingPriority : SourcePriority) (dedupeKey : String)
    (incomingCreatedAt : ℤ) (windowSecs : ℕ) : ∀ rs : List NotificationRecord,
    findMerge E incomingPriority dedupeKey incomingCreatedAt windowSecs (rs.filter notDeleted) =
      findMerge E incomingPriority dedupeKey incomingCreatedAt windowSecs rs
  | [] => rfl
  | r :: rs => by
    have ih := findMerge_live E incomingPriority dedupeKey incomingCreatedAt windowSecs rs
    by_cases hr : notDeleted r
    · rw [filter_cons_of_pos hr]
      unfold findMerge
      rw [ih]
    · have hactive : r.status.active = false := by
        rw [← Bool.not_eq_true]
        exact fun h => hr (active_notDeleted h)
      rw [filter_cons_of_neg hr, ih]
      conv_rhs => unfold findMerge
      rw [if_pos hactive]

/-- What a create decides on. -/
inductive Plan
  | refuse (e : NotificationError)
  | found (existing : NotificationRecord)
  | keep (existing : NotificationRecord)
  | write (action : StoreAction) (id : String) (outcome : CreateOutcome)

/-- The decision of `create_or_dedupe`, from the records. -/
def createPlan (E : Rfc3339) (records : Records) (candidate : NotificationRecord)
    (attentionWindowSecs : ℕ) : Plan :=
  let fresh := Plan.write (.created candidate) candidate.id (.created candidate)
  match findExistingSource records candidate with
  | some existing => .found existing
  | none =>
    match candidate.dedupeKey with
    | none => fresh
    | some dedupeKey =>
      if isTurnDedupeKey dedupeKey ∧ candidate.kind = .turnCompleted then
        let updated :=
          supersedeUnreadRecords records dedupeKey candidate.kind candidate.id candidate.createdAt
        if updated = [] then fresh
        else .write (.createdWithUpdates candidate updated) candidate.id
          (.createdWithUpdates candidate updated)
      else
        match parseTimestamp E candidate.createdAt with
        | .error e => .refuse e
        | .ok incomingCreatedAt =>
          match findMerge E (sourcePriority candidate) dedupeKey incomingCreatedAt
              attentionWindowSecs records.list with
          | .error e => .refuse e
          | .ok (some (.upgrade existing)) =>
            .write (.updated (upgradeProjector existing candidate))
              (upgradeProjector existing candidate).id
              (.updated (upgradeProjector existing candidate))
          | .ok (some (.keep existing)) => .keep existing
          | .ok none => fresh

/-- A plan, carried out. -/
def Store.carryOut (J : Json) (s : Store) (candidate : NotificationRecord) (minted : ℕ) :
    Plan → Store × Except NotificationError CreateOutcome
  | .refuse e => (s, .error e)
  | .found existing => (s, .ok (.existing existing))
  | .keep existing => (s.noteContribution candidate existing.id minted, .ok (.existing existing))
  | .write action id outcome =>
    ((s.write J action).noteContribution candidate id minted, .ok outcome)

theorem createPlan_live (E : Rfc3339) (m : Records) (candidate : NotificationRecord)
    (attentionWindowSecs : ℕ) :
    createPlan E (live m) candidate attentionWindowSecs =
    createPlan E m candidate attentionWindowSecs := by
  unfold createPlan
  simp only [findExistingSource_live, supersedeUnreadRecords_live, live_list, findMerge_live]

variable {J : Json} {E : Rfc3339} {s : Store}

theorem createOrDedupe_plan (hs : s.Usable) (hf : s.faults = [])
    (candidate : NotificationRecord) (attentionWindowSecs minted : ℕ) :
    s.createOrDedupe J E candidate attentionWindowSecs minted =
      s.carryOut J candidate minted (createPlan E s.records candidate attentionWindowSecs) := by
  unfold createOrDedupe createPlan
  rw [ensure_ok hs]
  cases findExistingSource s.records candidate with
  | some existing => rfl
  | none =>
    cases candidate.dedupeKey with
    | none => exact commit_ok hs hf _ _ _ _ _
    | some dedupeKey =>
      simp only
      by_cases hturn : isTurnDedupeKey dedupeKey ∧ candidate.kind = .turnCompleted
      · rw [if_pos hturn, if_pos hturn]
        unfold createSupersedingTurns
        simp only
        split
        · exact commit_ok hs hf _ _ _ _ _
        · exact commit_ok hs hf _ _ _ _ _
      · rw [if_neg hturn, if_neg hturn]
        cases parseTimestamp E candidate.createdAt with
        | error e => rfl
        | ok incomingCreatedAt =>
          simp only
          cases findMerge E (sourcePriority candidate) dedupeKey incomingCreatedAt
              attentionWindowSecs s.records.list with
          | error e => rfl
          | ok merge =>
            rcases merge with _ | existing | existing
            · exact commit_ok hs hf _ _ _ _ _
            · exact commit_ok hs hf _ _ _ _ _
            · rfl

/-! ### Two stores that agree on what is live -/

/-- The stores agree on the live records and the contributions. -/
structure SameLive (s t : Store) : Prop where
  usable : s.Usable
  usable' : t.Usable
  keyed : Keyed s.records
  keyed' : Keyed t.records
  live : live s.records = live t.records
  contributions : s.contributions = t.contributions

namespace SameLive

variable {J : Json} {E : Rfc3339} {s t : Store}

theorem refl (hs : s.Usable) (hk : Keyed s.records) : SameLive s s := ⟨hs, hs, hk, hk, rfl, rfl⟩

variable (h : SameLive s t)
include h

theorem symm : SameLive t s :=
  ⟨h.usable', h.usable, h.keyed', h.keyed, h.live.symm, h.contributions.symm⟩

theorem trans {u : Store} (h' : SameLive t u) : SameLive s u :=
  ⟨h.usable, h'.usable', h.keyed, h'.keyed', h.live.trans h'.live,
    h.contributions.trans h'.contributions⟩

/-- What becomes of the appends is not of the agreement. -/
theorem faults (f f' : List (Option ℕ)) :
    SameLive { s with faults := f } { t with faults := f' } :=
  ⟨⟨h.usable.file, h.usable.available⟩, ⟨h.usable'.file, h.usable'.available⟩, h.keyed,
    h.keyed', h.live, h.contributions⟩

/-- A record that is not deleted is in both. -/
theorem get {id : String} (hr : s.records[id]? = some r)
    (hlive : notDeleted r) : t.records[id]? = some r := by
  have hs : (Notifications.live s.records)[id]? = some r := live_get_some.mpr ⟨hr, hlive⟩
  rw [h.live] at hs
  exact (live_get_some.mp hs).1

/-- The same actions keep the agreement. -/
theorem wrote {s' t' : Store} (hs : Store.Wrote J s actions s') (ht : Store.Wrote J t actions t')
    (hc : s'.contributions = t'.contributions) : SameLive s' t' where
  usable := hs.usable h.usable
  usable' := ht.usable h.usable'
  keyed := by rw [hs.records]; exact h.keyed.foldl actions
  keyed' := by rw [ht.records]; exact h.keyed'.foldl actions
  live := by rw [hs.records, ht.records]; exact live_foldl h.live
  contributions := hc

theorem write (action : StoreAction) : SameLive (s.write J action) (t.write J action) :=
  h.wrote (write_wrote J s action) (write_wrote J t action) h.contributions

theorem note (candidate : NotificationRecord) (id : String) (minted : ℕ) :
    SameLive (s.noteContribution candidate id minted) (t.noteContribution candidate id minted) := by
  have hc := h.contributions
  unfold noteContribution
  split
  · refine ⟨⟨h.usable.file, h.usable.available⟩, ⟨h.usable'.file, h.usable'.available⟩,
      h.keyed, h.keyed', h.live, ?_⟩
    simp only [hc]
  · exact h

end SameLive

/-! ### The same answers -/

/-- What two stores that agree answer to an operation: the same, but for the
reason an update of a deleted record is refused and for a list that asks for
deleted records. -/
def SameAnswer (s : Store) (r r' : Result) : Operation → Prop
  | .updateTransition id _ _ =>
    ((∃ record, s.records[id]? = some record ∧ record.status ≠ .deleted) → r = r') ∧
    ((∀ record, s.records[id]? = some record → record.status = .deleted) →
      ∃ e e', r = .update (.error e) ∧ r' = .update (.error e'))
  | .list params => params.status ≠ some .deleted → r = r'
  | _ => r = r'

section Operations

variable {J : Json} {E : Rfc3339} {s t : Store}

theorem writeAll_contributions (J : Json) : ∀ (actions : List StoreAction) (s : Store),
    (s.writeAll J actions).contributions = s.contributions
  | [], _ => rfl
  | a :: actions, s => writeAll_contributions J actions (s.write J a)

/-- A delete of a record that is deleted or absent does nothing. -/
theorem delete_nothing (hs : s.Usable) {id : String}
    (hgone : ∀ r, s.records[id]? = some r → r.status = .deleted) (now : String) :
    s.deleteTransition J id now = (s, .ok none) := by
  unfold deleteTransition
  rw [ensure_ok hs]
  cases hg : s.records[id]? with
  | none => rfl
  | some r => simp only [hgone r hg, if_true]

/-- An update of a record that is deleted or absent is refused and changes
nothing. -/
theorem update_refused (hs : s.Usable) {id : String}
    (hgone : ∀ r, s.records[id]? = some r → r.status = .deleted) (status : NotificationStatus)
    (now : String) : ∃ e, s.updateTransition J id status now = (s, .error e) := by
  unfold updateTransition
  rw [ensure_ok hs]
  cases hg : s.records[id]? with
  | none => exact ⟨_, rfl⟩
  | some r =>
    simp only [hgone r hg, not_valid_from_deleted, if_true]
    exact ⟨_, rfl⟩

/-- The loop over ids of live records, in both stores. -/
theorem resolveLoop_same (now : String) : ∀ (ids : List String) {s t : Store}
    (resolved : List NotificationRecord), SameLive s t → s.faults = [] → t.faults = [] →
    (∀ id ∈ ids, ∃ r, s.records[id]? = some r ∧ notDeleted r) →
    ∃ answer s' t', s.resolveLoop J now ids resolved = (s', .ok answer) ∧
      t.resolveLoop J now ids resolved = (t', .ok answer) ∧ SameLive s' t'
  | [], s, t, resolved, h, _, _, _ => ⟨resolved, s, t, rfl, rfl, h⟩
  | id :: ids, s, t, resolved, h, hs, ht, hids => by
    obtain ⟨r, hr, hlive⟩ := hids id mem_cons_self
    have hrest : ∀ i ∈ ids, ∃ r',
      (s.write J (.updated (applyStatus r .acknowledged now))).records[i]? =
        some r' ∧ notDeleted r' := by
      -- an acknowledged record is not a deleted one
      intro i hi
      obtain ⟨r', hr', hlive'⟩ := hids i (mem_cons_of_mem id hi)
      change ∃ r', (s.records.put (applyStatus r .acknowledged now))[i]? = some r' ∧ _
      rw [put_get]
      split
      · exact ⟨_, rfl, by simp [notDeleted]⟩
      · exact ⟨r', hr', hlive'⟩
    unfold resolveLoop
    rw [hr, h.get hr hlive]
    simp only
    rw [append_ok h.usable hs, append_ok h.usable' ht]
    exact resolveLoop_same now ids _ (h.write _) rfl rfl hrest

variable (h : SameLive s t)
include h

/-- A lookup that finds a live record finds it in both stores, and one that
does not finds none in either. -/
theorem lookup_cases (id : String) :
    (∃ r, s.records[id]? = some r ∧ t.records[id]? = some r ∧ r.status ≠ .deleted) ∨
    ((∀ r, s.records[id]? = some r → r.status = .deleted) ∧
      ∀ r, t.records[id]? = some r → r.status = .deleted) := by
  by_cases hl : ∃ r, s.records[id]? = some r ∧ r.status ≠ .deleted
  · obtain ⟨r, hr, hd⟩ := hl
    exact .inl ⟨r, hr, h.get hr (by simpa [notDeleted] using hd), hd⟩
  · refine .inr ⟨fun r hr => ?_, fun r hr => ?_⟩
    · by_contra hd
      exact hl ⟨r, hr, hd⟩
    · by_contra hd
      exact hl ⟨r, h.symm.get hr (by simpa [notDeleted] using hd), hd⟩

/-- Whether the record of an id is active is the same in both stores. -/
theorem active_same (id : String) :
    s.records[id]?.any (·.status.active) = t.records[id]?.any (·.status.active) := by
  have hdeleted : ∀ u : Store, (∀ r, u.records[id]? = some r → r.status = .deleted) →
      u.records[id]?.any (·.status.active) = false := by
    intro u hu
    cases hg : u.records[id]? with
    | none => rfl
    | some r => simp [hu r hg, active]
  rcases lookup_cases h id with ⟨r, hr, hr', -⟩ | ⟨hgone, hgone'⟩
  · rw [hr, hr']
  · rw [hdeleted s hgone, hdeleted t hgone']

theorem list_same {params : NotificationListParams} (hp : params.status ≠ some .deleted) :
    s.list E params = t.list E params := by
  have hselects : ∀ m : Records,
    m.list.filter params.selects = (live m).list.filter params.selects := by
    intro m
    rw [live_list, filter_filter]
    congr 1
    funext record
    by_cases hd : record.status = .deleted
    · -- a list that does not ask for deleted records selects none
      have hnot : params.selects record = false := by
        unfold NotificationListParams.selects
        cases hst : params.status with
        | none => simp [hd]
        | some status =>
          have hne : ¬ deleted = status := fun e => hp (e ▸ hst)
          simp [hd, hne]
      rw [hnot, Bool.false_and]
    · have hlive : notDeleted record = true := by simpa [notDeleted] using hd
      rw [hlive, Bool.and_true]
  unfold list
  rw [ensure_ok h.usable, ensure_ok h.usable', hselects s.records, hselects t.records, h.live]

variable (hs : s.faults = []) (ht : t.faults = [])
include hs ht

theorem create_same (candidate : NotificationRecord) (attentionWindowSecs minted : ℕ) :
    (s.createOrDedupe J E candidate attentionWindowSecs minted).2 =
      (t.createOrDedupe J E candidate attentionWindowSecs minted).2 ∧
    SameLive (s.createOrDedupe J E candidate attentionWindowSecs minted).1
      (t.createOrDedupe J E candidate attentionWindowSecs minted).1 := by
  rw [createOrDedupe_plan h.usable hs, createOrDedupe_plan h.usable' ht,
    ← createPlan_live E s.records, h.live, createPlan_live]
  cases createPlan E t.records candidate attentionWindowSecs with
  | refuse e => exact ⟨rfl, h⟩
  | found existing => exact ⟨rfl, h⟩
  | keep existing => exact ⟨rfl, h.note candidate existing.id minted⟩
  | write action id outcome => exact ⟨rfl, (h.write action).note candidate id minted⟩

theorem supersede_same (attention : NotificationRecord) (now : String) :
    (s.supersedeTurnsForAttention J attention now).2 =
    (t.supersedeTurnsForAttention J attention now).2 ∧
    SameLive (s.supersedeTurnsForAttention J attention now).1
      (t.supersedeTurnsForAttention J attention now).1 := by
  unfold supersedeTurnsForAttention
  split
  · exact ⟨rfl, h⟩
  · split
    · exact ⟨rfl, h⟩
    · split
      · exact ⟨rfl, h⟩
      · simp only
        rw [← supersedeUnreadRecords_live s.records, h.live, supersedeUnreadRecords_live,
          appendAll_ok _ h.usable hs, appendAll_ok _ h.usable' ht]
        refine ⟨rfl, h.wrote (writeAll_wrote J _ s) (writeAll_wrote J _ t) ?_⟩
        rw [writeAll_contributions, writeAll_contributions, h.contributions]

theorem delete_same (id now : String) :
    (s.deleteTransition J id now).2 = (t.deleteTransition J id now).2 ∧
    SameLive (s.deleteTransition J id now).1 (t.deleteTransition J id now).1 := by
  rcases lookup_cases h id with ⟨r, hr, hr', hd⟩ | ⟨hgone, hgone'⟩
  · unfold deleteTransition
    rw [ensure_ok h.usable, ensure_ok h.usable', hr, hr']
    simp only [if_neg hd]
    rw [append_ok h.usable hs, append_ok h.usable' ht]
    exact ⟨rfl, h.write _⟩
  · rw [delete_nothing h.usable hgone, delete_nothing h.usable' hgone']
    exact ⟨rfl, h⟩

theorem update_same (id : String)
    (status : NotificationStatus) (now : String) :
    SameAnswer s (.update (s.updateTransition J id status now).2)
      (.update (t.updateTransition J id status now).2) (.updateTransition id status now) ∧
    SameLive (s.updateTransition J id status now).1 (t.updateTransition J id status now).1 := by
  rcases lookup_cases h id with ⟨r, hr, hr', hd⟩ | ⟨hgone, hgone'⟩
  · have hsame : (s.updateTransition J id status now).2 = (t.updateTransition J id status now).2 ∧
        SameLive (s.updateTransition J id status now).1 (t.updateTransition J id status now).1 := by
      unfold updateTransition
      rw [ensure_ok h.usable, ensure_ok h.usable', hr, hr']
      simp only
      split
      · exact ⟨rfl, h⟩
      · rw [append_ok h.usable hs, append_ok h.usable' ht]
        exact ⟨rfl, h.write _⟩
    exact ⟨⟨fun _ => congrArg _ hsame.1, fun hall => absurd (hall r hr) hd⟩, hsame.2⟩
  · obtain ⟨e, he⟩ := update_refused (J := J) h.usable hgone status now
    obtain ⟨e', he'⟩ := update_refused (J := J) h.usable' hgone' status now
    rw [he, he']
    refine ⟨⟨fun ⟨r, hr, hd⟩ => absurd (hgone r hr) hd, fun _ => ⟨e, e', rfl, rfl⟩⟩, h⟩

theorem resolve_same (dedupeKey now : String)
    (asOf : Option ℕ) :
    (s.resolveSessionNotifications J dedupeKey now asOf).2 =
      (t.resolveSessionNotifications J dedupeKey now asOf).2 ∧
    SameLive (s.resolveSessionNotifications J dedupeKey now asOf).1
      (t.resolveSessionNotifications J dedupeKey now asOf).1 := by
  have hmatch : ∀ u : Store, (u.records.list.filter fun record =>
        record.dedupeKey = some dedupeKey ∧ resolveKeyMatchesKind dedupeKey record.kind ∧
          record.status.active ∧ u.existedAt record asOf) =
      (live u.records).list.filter fun record =>
        record.dedupeKey = some dedupeKey ∧ resolveKeyMatchesKind dedupeKey record.kind ∧
          record.status.active ∧ u.existedAt record asOf := by
    intro u
    rw [live_list, filter_filter]
    congr 1
    funext record
    by_cases ha : record.status.active
    · simp [ha, active_notDeleted ha]
    · simp [ha]
  have hexisted : t.existedAt = s.existedAt := by
    funext record asOf
    unfold existedAt
    rw [h.contributions]
  have hids : ∀ id ∈ (((live s.records).list.filter fun record =>
        record.dedupeKey = some dedupeKey ∧ resolveKeyMatchesKind dedupeKey record.kind ∧
          record.status.active ∧ s.existedAt record asOf).map (·.id)),
      ∃ r, s.records[id]? = some r ∧ notDeleted r := by
    intro id hid
    obtain ⟨r, hr, rfl⟩ := mem_map.mp hid
    obtain ⟨k, hk⟩ := mem_list.mp (mem_of_mem_filter hr)
    obtain ⟨hk, hlive⟩ := live_get_some.mp hk
    exact ⟨r, h.keyed k r hk ▸ hk, hlive⟩
  unfold resolveSessionNotifications
  simp only
  rw [hmatch s, hmatch t, hexisted, ← h.live]
  obtain ⟨answer, s', t', hs', ht', hsame⟩ := resolveLoop_same (J := J) now _ [] h hs ht hids
  rw [hs', ht']
  refine ⟨rfl, ⟨hsame.usable.file, hsame.usable.available⟩,
    ⟨hsame.usable'.file, hsame.usable'.available⟩, hsame.keyed, hsame.keyed', hsame.live, ?_⟩
  refine congrArg₂ Std.ExtTreeMap.filter (funext fun id => funext fun _ => ?_) hsame.contributions
  have hactive := active_same hsame id
  generalize s'.records[id]? = a, t'.records[id]? = b at hactive ⊢
  cases a <;> cases b <;> exact hactive

/-- **Stores that agree answer alike and agree again.** -/
theorem sameLive_perform {op : Operation} (hop : ∀ n sources, op ≠ .compactIfNeeded n sources) :
    SameAnswer s (s.perform J E op).2 (t.perform J E op).2 op ∧
      SameLive (s.perform J E op).1 (t.perform J E op).1 := by
  cases op with
  | createOrDedupe candidate window minted =>
    obtain ⟨ha, hl⟩ := create_same (J := J) (E := E) h hs ht candidate window minted
    exact ⟨congrArg Result.create ha, hl⟩
  | supersedeTurnsForAttention attention now =>
    obtain ⟨ha, hl⟩ := supersede_same (J := J) h hs ht attention now
    exact ⟨congrArg Result.records ha, hl⟩
  | updateTransition id status now => exact update_same h hs ht id status now
  | deleteTransition id now =>
    obtain ⟨ha, hl⟩ := delete_same (J := J) h hs ht id now
    exact ⟨congrArg Result.delete ha, hl⟩
  | resolveSessionNotifications dedupeKey now asOf =>
    obtain ⟨ha, hl⟩ := resolve_same (J := J) h hs ht dedupeKey now asOf
    exact ⟨congrArg Result.records ha, hl⟩
  | compactIfNeeded n sources => exact absurd rfl (hop n sources)
  | list params => exact ⟨fun hp => congrArg Result.page (list_same h hp), h⟩

end Operations

/-! ### Compactions in one of the stores -/

/-- Of records that are different by their ids, an insertion loses none. -/
theorem puts_get : ∀ (rs : List NotificationRecord) {m : Records} {r : NotificationRecord},
    (∀ r' ∈ rs, r'.id = r.id → r' = r) → (r ∈ rs ∨ m[r.id]? = some r) →
    (rs.foldl Records.put m)[r.id]? = some r
  | [], _, _, _, h => h.resolve_left not_mem_nil
  | x :: rs, m, r, huniq, h => by
    refine puts_get rs (fun r' hr' => huniq r' (mem_cons_of_mem x hr')) ?_
    rw [put_get]
    by_cases hx : x.id = r.id
    · rw [if_pos hx, huniq x mem_cons_self hx]
      exact .inr rfl
    · rw [if_neg hx]
      refine h.imp_left fun hmem => ?_
      rcases mem_cons.mp hmem with rfl | hmem
      · exact absurd rfl hx
      · exact hmem

/-- What a compaction keeps is live exactly when it was. -/
theorem live_retained (hk : Keyed s.records) (sources : Option (List SessionRecord)) :
    live ((s.retained E sources).foldl Records.put ∅) = live s.records := by
  have hsource : ∀ r ∈ s.retained E sources, s.records[r.id]? = some r := by
    intro r hr
    obtain ⟨k, hkr⟩ := mem_list.mp (retained_subset s sources hr)
    exact hk k r hkr ▸ hkr
  refine ext_getElem? fun k => Option.ext fun r => ?_
  rw [live_get_some, live_get_some]
  constructor
  · rintro ⟨hr, hlive⟩
    refine ⟨?_, hlive⟩
    have hid : r.id = k := Keyed.puts _ Keyed.empty k r hr
    rcases puts_source _ hr with hmem | hnone
    · exact hid ▸ hsource r hmem
    · simp at hnone
  · rintro ⟨hr, hlive⟩
    refine ⟨?_, hlive⟩
    obtain rfl : r.id = k := hk k r hr
    refine puts_get _ (fun r' hr' hid => ?_) (.inl ?_)
    · have hsame := hsource r' hr'
      rw [hid, hr] at hsame
      exact (Option.some.inj hsame).symm
    · exact mem_append_left _ (mem_filter.mpr ⟨mem_list.mpr ⟨_, hr⟩, hlive⟩)

/-- **A compaction of one of the stores keeps the agreement.** -/
theorem SameLive.compact_left {s' t : Store} {b : Bool}
    {sources : Option (List SessionRecord)} (h : SameLive s t)
    (hc : Store.Compacted J E s sources s' b) : SameLive s' t := by
  cases hc with
  | skipped warned =>
    exact ⟨⟨h.usable.file, h.usable.available⟩, h.usable', h.keyed, h.keyed', h.live,
      h.contributions⟩
  | done warned =>
    exact ⟨⟨h.usable.file, h.usable.available⟩, h.usable', Keyed.puts _ Keyed.empty, h.keyed',
      (live_retained h.keyed sources).trans h.live, h.contributions⟩

/-! ### Runs -/

def Operation.isCompaction : Operation → Bool
  | .compactIfNeeded _ _ => true
  | _ => false

/-- The operations of a run, without its compactions. -/
def operations (tr : List (Runs.Label Call Result)) : List Operation :=
  (tr.map (·.call.operation)).filter fun op => !op.isCompaction

/-- The store that was never compacted. -/
def Store.uncompacted (J : Json) (E : Rfc3339) (s : Store) (ops : List Operation) : Store :=
  ops.foldl (fun s op => (s.exec J E ⟨op, []⟩).1) s

theorem not_compaction {op : Operation} :
    op.isCompaction = false ↔ ∀ n sources, op ≠ .compactIfNeeded n sources := by
  cases op <;> simp [Operation.isCompaction]

variable {A : StoreAction → Prop}

/-- **Simulation.** A run without failures agrees with the run of its
operations without the compactions. -/
theorem sameLive_uncompacted {s₀ : Store}
    (h₀ : SameLive s₀ s₀) {tr : List (Runs.Label Call Result)}
    (hr : Runs.Run (CleanStep J E A) s₀ tr s) :
    SameLive s (s₀.uncompacted J E (operations tr)) := by
  refine hr.history h₀ ?_
  intro tr t l u _ ih hstep
  rcases hstep.cases ih.usable with ⟨hop, -⟩ | ⟨n, sources, b, hop, -, hc⟩
  · have hops : operations (tr ++ [l]) = operations tr ++ [l.call.operation] := by
      simp [operations, not_compaction.mpr hop]
    have hu : u = (perform J E { t with faults := [] } l.call.operation).1 := by
      have hstep' := hstep.step
      unfold Store.Step exec at hstep'
      rw [hstep.faults] at hstep'
      rw [hstep']
    rw [hops, uncompacted, foldl_append, hu]
    exact (sameLive_perform (ih.faults [] []) rfl rfl hop).2
  · have hops : operations (tr ++ [l]) = operations tr := by
      simp [operations, hop, Operation.isCompaction]
    rw [hops]
    exact (ih.faults [] _).compact_left hc

theorem Logged.keyed (h : Logged J A s) : Keyed s.records := by
  obtain ⟨actions, -, -, hrec, -⟩ := h.log
  rw [hrec]
  exact Keyed.empty.foldl actions

/-- **The log refines the records, and compactions are not observable.** In
every run whose appends succeed, from a directory that holds a log of whole
actions, reading the log back gives the records in memory. Two runs that
differ only in where they compact give the same answer to every further
operation: an update of a record that is deleted is refused by both, and a
list is compared when it does not ask for deleted records. -/
theorem log_refinement {J : Json} {E : Rfc3339} {A : StoreAction → Prop} (hJ : J.format.Lawful A)
    (hA : Closed A) {dir : Dir} {actions : List StoreAction} (hdir : dir.Holds J A actions) :
    (∀ tr s, Runs.Run (CleanStep J E A) (Store.«open» J dir) tr s →
      replay J s.path s.log = .ok ⟨s.records, s.actionCount⟩) ∧
    ∀ tr tr' s t, Runs.Run (CleanStep J E A) (Store.«open» J dir) tr s →
      Runs.Run (CleanStep J E A) (Store.«open» J dir) tr' t → operations tr = operations tr' →
      ∀ op : Operation, op.isCompaction = false →
        SameAnswer s (s.exec J E ⟨op, []⟩).2 (t.exec J E ⟨op, []⟩).2 op := by
  constructor
  · intro tr s hr
    exact (Logged.run hJ hA hdir hr).replay hJ
  · intro tr tr' s t hr hr' hops op hop
    have hopened := Logged.opened hJ hdir
    have h₀ : SameLive (Store.«open» J dir) (Store.«open» J dir) :=
      .refl hopened.usable hopened.keyed
    -- both runs agree with the run that never compacts
    have hs := sameLive_uncompacted h₀ hr
    have ht := sameLive_uncompacted h₀ hr'
    rw [← hops] at ht
    exact (sameLive_perform ((hs.trans ht.symm).faults [] []) rfl rfl (not_compaction.mp hop)).1

/-- The sample run, compacted and not: the deleted record is gone from one of
the stores, and both list the same page. -/
theorem log_refinement_compacted :
    let start := Store.«open» sampleJson sampleDir
    let s := (start.execAll sampleJson sampleTime
      (sampleCalls ++ [⟨.compactIfNeeded 1 none, []⟩])).1
    let t := (start.execAll sampleJson sampleTime sampleCalls).1
    s.records.list = [sampleRecord "n2"] ∧ t.records.list = [sampleDeleted, sampleRecord "n2"] ∧
      replay sampleJson s.path s.log = .ok ⟨s.records, s.actionCount⟩ ∧
      (s.exec sampleJson sampleTime ⟨.list {}, []⟩).2 =
      (t.exec sampleJson sampleTime ⟨.list {}, []⟩).2 := by
  intro start s t
  have hs := execAll_run (J := sampleJson) (E := sampleTime) (A := (· ∈ sampleActions))
    (sampleCalls ++ [⟨.compactIfNeeded 1 none, []⟩]) start (by decide +kernel)
  have ht := execAll_run (J := sampleJson) (E := sampleTime) (A := (· ∈ sampleActions))
    sampleCalls start (by decide +kernel)
  obtain ⟨hreplay, hsame⟩ :=
    log_refinement (E := sampleTime) sampleJson_lawful sampleActions_closed sampleDir_holds
  refine ⟨by decide +kernel, by decide +kernel, hreplay _ s hs, ?_⟩
  refine hsame _ _ s t hs ht ?_ (.list {}) rfl (by decide)
  rfl

end Pohunek.Notifications
