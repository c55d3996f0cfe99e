/-
# The log and the records in memory

`Wrote J s actions t`: the store `t` is `s` after the actions were appended
and applied. Every operation of a usable store whose appends succeed writes
exactly the actions its answer names (`perform_wrote`), and a compaction that
takes place replaces the log by one creation for each record it keeps
(`compact_cases`). So the log is always the rendering of actions whose fold
is the records (`Logged`), and reading it back gives the records
(`Logged.replay`).
-/
import Pohunek.Notifications.Store

namespace Pohunek.Notifications

open List Std.ExtTreeMap LineLog.Format Store

/-- The actions an answer tells of. -/
def Result.actions : Result → List StoreAction
  | .create (.ok (.created record)) => [.created record]
  | .create (.ok (.createdWithUpdates record updated)) => [.createdWithUpdates record updated]
  | .create (.ok (.updated record)) => [.updated record]
  | .records (.ok updated) => updated.map .updated
  | .update (.ok (.updated record)) => [.updated record]
  | .update (.ok (.deleted record)) => [.deleted record]
  | .delete (.ok (some record)) => [.deleted record]
  | _ => []

/-- The records an action carries. -/
def StoreAction.records : StoreAction → List NotificationRecord
  | .created record | .updated record | .deleted record => [record]
  | .createdWithUpdates record others => record :: others

theorem applyAction_eq (m : Records) (a : StoreAction) :
    applyAction m a = a.records.foldl Records.put m := by
  cases a <;> rfl

theorem put_get (m : Records) (r : NotificationRecord) (k : String) :
    (m.put r)[k]? = if r.id = k then some r else m[k]? := by
  unfold Records.put
  rw [Std.ExtTreeMap.getElem?_insert]
  simp only [Std.LawfulEqCmp.compare_eq_iff_eq]

variable {r : NotificationRecord}

theorem mem_list {m : Records} : r ∈ m.list ↔ ∃ k : String, m[k]? = some r := by
  constructor
  · intro h
    obtain ⟨⟨k, r'⟩, hk, rfl⟩ := mem_map.mp h
    exact ⟨k, mem_toList_iff_getElem?_eq_some.mp hk⟩
  · rintro ⟨k, hk⟩
    exact mem_map.mpr ⟨(k, r), mem_toList_iff_getElem?_eq_some.mpr hk, rfl⟩

/-- A record that insertions leave was there or was inserted. -/
theorem puts_source {k : String} : ∀ (rs : List NotificationRecord) {m : Records},
    (rs.foldl Records.put m)[k]? = some r → r ∈ rs ∨ m[k]? = some r
  | [], _, h => .inr h
  | x :: rs, m, h => by
    rcases puts_source rs (m := m.put x) h with hr | hr
    · exact .inl (mem_cons_of_mem x hr)
    · rw [put_get] at hr
      split at hr
      · cases hr
        exact .inl mem_cons_self
      · exact .inr hr

/-- A record that actions leave was there or is one of an action. -/
theorem actions_source {k : String} : ∀ (actions : List StoreAction) {m : Records},
    (actions.foldl applyAction m)[k]? = some r → (∃ a ∈ actions, r ∈ a.records) ∨ m[k]? = some r
  | [], _, h => .inr h
  | a :: actions, m, h => by
    rcases actions_source actions (m := applyAction m a) h with ⟨b, hb, hr⟩ | hr
    · exact .inl ⟨b, mem_cons_of_mem a hb, hr⟩
    · rw [applyAction_eq] at hr
      exact (puts_source a.records hr).imp_left fun hr => ⟨a, mem_cons_self, hr⟩

/-- A store this build uses. -/
structure Store.Usable (s : Store) : Prop where
  file : s.file
  available : s.unavailable = none

/-- `t` is `s` after the actions were appended and applied. The contributions
and the warning flag are not of the log. -/
structure Store.Wrote (J : Json) (s : Store) (actions : List StoreAction) (t : Store) : Prop where
  log : t.log = s.log ++ encodeUtf8 (J.format.render actions)
  records : t.records = actions.foldl applyAction s.records
  count : t.actionCount = s.actionCount + actions.length
  path : t.path = s.path
  file : t.file = s.file
  faults : s.faults = [] → t.faults = []
  unavailable : t.unavailable = s.unavailable

@[simp] theorem encodeUtf8_nil : encodeUtf8 [] = ByteArray.empty := rfl

theorem encodeUtf8_eq (text : List Char) : encodeUtf8 text = text.utf8Encode := rfl

theorem encodeUtf8_append (a b : List Char) :
    encodeUtf8 (a ++ b) = encodeUtf8 a ++ encodeUtf8 b := by
  rw [encodeUtf8_eq, encodeUtf8_eq, encodeUtf8_eq, utf8Encode_append]

namespace Store

variable {J : Json} {E : Rfc3339} {s t u : Store}

/-! ### Appends -/

theorem Wrote.refl (s : Store) : Wrote J s [] s :=
  ⟨by simp [render], rfl, rfl, rfl, rfl, id, rfl⟩

variable {as : List StoreAction}

theorem Wrote.trans {bs : List StoreAction} (h : Wrote J s as t) (h' : Wrote J t bs u) :
    Wrote J s (as ++ bs) u where
  log := by
    rw [h'.log, h.log, render_append, encodeUtf8_append, ByteArray.append_assoc]
  records := by rw [h'.records, h.records, foldl_append]
  count := by rw [h'.count, h.count, length_append]; omega
  path := h'.path.trans h.path
  file := h'.file.trans h.file
  faults := fun hf => h'.faults (h.faults hf)
  unavailable := h'.unavailable.trans h.unavailable

/-- Only what is outside the log differs. -/
theorem Wrote.congr (h : Wrote J s as t) (contributions : Std.ExtTreeMap String ℕ) :
    Wrote J s as { t with contributions := contributions } :=
  ⟨h.log, h.records, h.count, h.path, h.file, h.faults, h.unavailable⟩

theorem Wrote.usable (h : Wrote J s as t) (hs : s.Usable) : t.Usable :=
  ⟨h.file.trans hs.file, h.unavailable.trans hs.available⟩

/-- The store after one append that succeeds. -/
def write (J : Json) (s : Store) (action : StoreAction) : Store :=
  { s with
    log := s.log ++ encodeUtf8 (J.format.line action)
    faults := []
    records := applyAction s.records action
    actionCount := s.actionCount + 1 }

theorem append_ok (hs : s.Usable) (hf : s.faults = []) (action : StoreAction) :
    s.appendActionLocked J action = (s.write J action, .ok ()) := by
  unfold appendActionLocked write
  rw [hs.file, hf]
  rfl

theorem write_wrote (J : Json) (s : Store) (action : StoreAction) :
    Wrote J s [action] (s.write J action) :=
  ⟨by rw [render_single]; rfl, rfl, rfl, rfl, rfl, fun _ => rfl, rfl⟩

theorem write_usable (hs : s.Usable) (action : StoreAction) : (s.write J action).Usable :=
  (write_wrote J s action).usable hs

/-- The store after appends that succeed. -/
def writeAll (J : Json) (s : Store) (actions : List StoreAction) :
    Store := actions.foldl (write J) s

theorem appendAll_ok : ∀ (actions : List StoreAction) {s : Store}, s.Usable → s.faults = [] →
    s.appendAll J actions = (s.writeAll J actions, .ok ())
  | [], _, _, _ => rfl
  | action :: actions, s, hs, hf => by
    rw [appendAll, append_ok hs hf]
    exact appendAll_ok actions (write_usable hs action) rfl

theorem writeAll_wrote (J : Json) : ∀ (actions : List StoreAction) (s : Store),
    Wrote J s actions (s.writeAll J actions)
  | [], s => .refl s
  | action :: actions, s => (write_wrote J s action).trans (writeAll_wrote J actions _)

theorem noteContribution_wrote (h : Wrote J s as t) (candidate : NotificationRecord) (id : String)
    (minted : ℕ) : Wrote J s as (t.noteContribution candidate id minted) := by
  unfold noteContribution
  split
  · exact h.congr _
  · exact h

section

theorem ensure_ok (hs : s.Usable) : s.ensureAvailable = .ok () := by
  unfold ensureAvailable
  rw [hs.available]

variable (hs : s.Usable) (hf : s.faults = [])
include hs hf

theorem commit_ok (action : StoreAction) (candidate : NotificationRecord) (id : String) (minted : ℕ)
    (outcome : CreateOutcome) : s.commit J action candidate id minted outcome =
      ((s.write J action).noteContribution candidate id minted, .ok outcome) := by
  unfold commit
  rw [append_ok hs hf]

/-! ### Every operation -/

theorem createOrDedupe_wrote (candidate : NotificationRecord) (attentionWindowSecs minted : ℕ) :
    Wrote J s (Result.create (s.createOrDedupe J E candidate attentionWindowSecs minted).2).actions
      (s.createOrDedupe J E candidate attentionWindowSecs minted).1 := by
  -- every commit writes the action its outcome names
  have hcommit : ∀ action id outcome, (Result.create (.ok outcome)).actions = [action] →
      Wrote J s (Result.create (s.commit J action candidate id minted outcome).2).actions
        (s.commit J action candidate id minted outcome).1 := by
    intro action id outcome h
    rw [commit_ok hs hf, h]
    exact noteContribution_wrote (write_wrote J s action) candidate id minted
  unfold createOrDedupe
  rw [ensure_ok hs]
  simp only
  split
  · exact .refl s
  · split
    · exact hcommit _ _ _ rfl
    · split
      · unfold createSupersedingTurns
        simp only
        split
        · exact hcommit _ _ _ rfl
        · exact hcommit _ _ _ rfl
      · split
        · exact .refl s
        · split
          · exact .refl s
          · exact hcommit _ _ _ rfl
          · exact noteContribution_wrote (.refl s) _ _ _
          · exact hcommit _ _ _ rfl

theorem supersede_wrote (attention : NotificationRecord) (now : String) :
    Wrote J s (Result.records (s.supersedeTurnsForAttention J attention now).2).actions
      (s.supersedeTurnsForAttention J attention now).1 := by
  unfold supersedeTurnsForAttention
  split
  · exact .refl s
  · split
    · exact .refl s
    · split
      · exact .refl s
      · simp only
        rw [appendAll_ok _ hs hf]
        exact writeAll_wrote J _ s

theorem update_wrote (id : String) (status : NotificationStatus) (now : String) :
    Wrote J s (Result.update (s.updateTransition J id status now).2).actions
      (s.updateTransition J id status now).1 := by
  unfold updateTransition
  rw [ensure_ok hs]
  simp only
  split
  · exact .refl s
  · split
    · exact .refl s
    · rename_i record _ _
      rw [append_ok hs hf]
      by_cases hdeleted : (applyStatus record status now).status = .deleted
      · simp only [if_pos hdeleted]
        exact write_wrote J s _
      · simp only [if_neg hdeleted]
        exact write_wrote J s _

theorem delete_wrote (id now : String) :
    Wrote J s (Result.delete (s.deleteTransition J id now).2).actions
    (s.deleteTransition J id now).1 := by
  unfold deleteTransition
  rw [ensure_ok hs]
  simp only
  split
  · exact .refl s
  · split
    · exact .refl s
    · rw [append_ok hs hf]
      exact write_wrote J s _

omit hs hf in
/-- The loop appends what it adds to its answer. -/
theorem resolveLoop_wrote (now : String) : ∀ (ids : List String) {s : Store}
    (resolved : List NotificationRecord), s.Usable → s.faults = [] →
    ∃ more t, s.resolveLoop J now ids resolved = (t, .ok (resolved ++ more)) ∧
      Wrote J s (more.map .updated) t
  | [], s, resolved, _, _ => ⟨[], s, by simp [resolveLoop], .refl s⟩
  | id :: ids, s, resolved, hs, hf => by
    unfold resolveLoop
    split
    · exact resolveLoop_wrote now ids resolved hs hf
    · rename_i record _
      rw [append_ok hs hf]
      simp only
      obtain ⟨more, t, ht, hw⟩ := resolveLoop_wrote now ids
        (resolved ++ [applyStatus record .acknowledged now])
        (write_usable (J := J) hs (.updated (applyStatus record .acknowledged now))) rfl
      refine ⟨applyStatus record .acknowledged now :: more, t, ?_, ?_⟩
      · rw [ht, append_assoc]
        rfl
      · exact (write_wrote J s _).trans hw

theorem resolve_wrote (dedupeKey now : String) (asOf : Option ℕ) :
    Wrote J s (Result.records (s.resolveSessionNotifications J dedupeKey now asOf).2).actions
      (s.resolveSessionNotifications J dedupeKey now asOf).1 := by
  unfold resolveSessionNotifications
  simp only
  generalize (s.records.list.filter _).map _ = ids
  obtain ⟨more, t, ht, hw⟩ := resolveLoop_wrote (J := J) now ids [] hs hf
  rw [ht]
  exact hw.congr _

/-- **An operation other than a compaction writes what its answer names.** -/
theorem perform_wrote {op : Operation} (hop : ∀ n sources, op ≠ .compactIfNeeded n sources) :
    Wrote J s (s.perform J E op).2.actions (s.perform J E op).1 := by
  cases op with
  | createOrDedupe candidate window minted =>
    exact createOrDedupe_wrote hs hf candidate window minted
  | supersedeTurnsForAttention attention now => exact supersede_wrote hs hf attention now
  | updateTransition id status now => exact update_wrote hs hf id status now
  | deleteTransition id now => exact delete_wrote hs hf id now
  | resolveSessionNotifications dedupeKey now asOf => exact resolve_wrote hs hf dedupeKey now asOf
  | compactIfNeeded n sources => exact absurd rfl (hop n sources)
  | list params => exact .refl s

end

/-! ### Compaction -/

/-- What a compaction keeps. -/
def retained (E : Rfc3339) (s : Store) (sources : Option (List SessionRecord)) :
    List NotificationRecord :=
  (s.records.list.filter fun record => record.status ≠ .deleted) ++
  (s.terminalTombstones E sources).2

/-- The log and the records are as they were, or hold what is kept. -/
inductive Compacted (J : Json) (E : Rfc3339) (s : Store) (sources : Option (List SessionRecord)) :
    Store → Bool → Prop
  | skipped (warned : Bool) : Compacted J E s sources { s with sourceWarningLogged := warned } false
  | done (warned : Bool) : Compacted J E s sources
      { s with
        sourceWarningLogged := warned
        log := encodeUtf8 (J.format.render ((s.retained E sources).map .created))
        actionCount := (s.retained E sources).length
        records := (s.retained E sources).foldl Records.put ∅ } true

variable (s : Store) (sources : Option (List SessionRecord))

theorem tombstones_state :
    ∃ warned, (s.terminalTombstones E sources).1 = { s with sourceWarningLogged := warned } := by
  unfold terminalTombstones
  simp only
  split
  · exact ⟨s.sourceWarningLogged, rfl⟩
  · split
    · exact ⟨true, rfl⟩
    · exact ⟨s.sourceWarningLogged, rfl⟩

theorem compact_cases (J : Json) (s : Store) (minimumActions : ℕ)
    (sources : Option (List SessionRecord)) :
    ∃ t b, s.compactIfNeeded J E minimumActions sources = (t, .ok b) ∧
    Compacted J E s sources t b := by
  obtain ⟨warned, hw⟩ := tombstones_state (E := E) s sources
  unfold compactIfNeeded
  simp only
  split
  · exact ⟨_, _, rfl, .skipped s.sourceWarningLogged⟩
  · rw [hw]
    split
    · exact ⟨_, _, rfl, .skipped warned⟩
    · exact ⟨_, _, rfl, .done warned⟩

theorem newestTombstones_subset (sources : List SessionRecord) (deleted : List NotificationRecord) :
    newestTombstones E sources deleted ⊆ deleted := by
  intro r hr
  obtain ⟨⟨key, r'⟩, hmem, rfl⟩ := mem_map.mp hr
  -- every entry of the table is one of the records the loop went over
  refine List.foldlRecOn deleted _
    (motive := fun table => ∀ (key : List String) (r : NotificationRecord), table[key]? = some r →
      r ∈ deleted) ?_ ?_ key r' (mem_toList_iff_getElem?_eq_some.mp hmem)
  · intro key r h
    simp at h
  · intro table ih record hrecord
    have hinsert : ∀ (newer : Bool) (k key : List String) (r : NotificationRecord),
        (if newer then table.insert k record else table)[key]? = some r → r ∈ deleted := by
      intro newer k key r h
      cases newer with
      | false => exact ih key r h
      | true =>
        rw [if_pos rfl, Std.ExtTreeMap.getElem?_insert] at h
        split at h
        · cases h
          exact hrecord
        · exact ih key r h
    split
    · exact ih
    · split
      · exact ih
      · exact hinsert _ _

theorem tombstones_subset :
    (s.terminalTombstones E sources).2 ⊆ s.records.list.filter isTerminalTombstone := by
  unfold terminalTombstones
  simp only
  split
  · exact nil_subset _
  · split
    · exact List.Subset.refl _
    · exact newestTombstones_subset _ _

/-- A compaction keeps records of the store. -/
theorem retained_subset :
    s.retained E sources ⊆ s.records.list := by
  intro r hr
  rcases mem_append.mp hr with h | h
  · exact mem_of_mem_filter h
  · exact mem_of_mem_filter (tombstones_subset s sources h)

end Store

/-! ### The log is the records -/

/-- A step whose appends succeed and write actions in `A`. -/
structure CleanStep (J : Json) (E : Rfc3339) (A : StoreAction → Prop) (s : Store)
    (l : Runs.Label Call Result) (t : Store) : Prop where
  step : Store.Step J E s l t
  faults : l.call.faults = []
  actions : ∀ a ∈ l.answer.actions, A a

/-- The calls made one after the other. -/
def Store.execAll (J : Json) (E : Rfc3339) : Store → List Call →
    Store × List (Runs.Label Call Result)
  | s, [] => (s, [])
  | s, c :: cs =>
    let rest := Store.execAll J E (s.exec J E c).1 cs
    (rest.1, ⟨c, (s.exec J E c).2⟩ :: rest.2)

variable {J : Json} {E : Rfc3339} {A : StoreAction → Prop}

theorem Store.execAll_run :
    ∀ (calls : List Call) (s : Store),
      (∀ l ∈ (s.execAll J E calls).2, l.call.faults = [] ∧ ∀ a ∈ l.answer.actions, A a) →
      Runs.Run (CleanStep J E A) s (s.execAll J E calls).2 (s.execAll J E calls).1
  | [], s, _ => .refl s
  | c :: cs, s, h => by
    obtain ⟨hfaults, hactions⟩ := h ⟨c, (s.exec J E c).2⟩ mem_cons_self
    have hrest := execAll_run cs (s.exec J E c).1 fun l hl => h l (mem_cons_of_mem _ hl)
    exact .cons ⟨rfl, hfaults, hactions⟩ hrest

/-- The encoding of every record in an action of `A` is covered by `A`: a
compaction writes records as creations. -/
def Closed (A : StoreAction → Prop) : Prop := ∀ a, A a → ∀ r ∈ a.records, A (.created r)

/-- The log is the rendering of actions in `A` whose fold is the records. -/
structure Logged (J : Json) (A : StoreAction → Prop) (s : Store) : Prop where
  usable : s.Usable
  log : ∃ actions, (∀ a ∈ actions, A a) ∧ s.log = encodeUtf8 (J.format.render actions) ∧
    s.records = actions.foldl applyAction ∅ ∧ s.actionCount = actions.length

theorem replayFold (actions : List StoreAction) : ∀ (r : ReplayState),
    actions.foldl ReplayState.apply r =
      ⟨actions.foldl applyAction r.records, r.actionCount + actions.length⟩ := by
  induction actions with
  | nil => intro r; rfl
  | cons a actions ih =>
    intro r
    rw [foldl_cons, ih, foldl_cons, length_cons]
    simp only [ReplayState.apply, ReplayState.mk.injEq, true_and]
    omega

variable {actions : List StoreAction}

/-- A rendered log is read as its actions. -/
theorem replay_records (hJ : J.format.Lawful A) (path : String) (hA : ∀ a ∈ actions, A a) :
    replay J path (encodeUtf8 (J.format.render actions)) =
      .ok ⟨actions.foldl applyAction ∅, actions.length⟩ := by
  unfold replay
  rw [encodeUtf8_eq, utf8Decode?_utf8Encode]
  simp only
  have hscan := hJ.scan_records ReplayState.apply [] actions 1 ⟨∅, 0⟩ hA
  rw [append_nil] at hscan
  rw [show ('\n' : Char) = J.format.sep from rfl, hscan, replayFold]
  simp [LineLog.split, scan]

variable {s : Store}

/-- **Replaying the log gives the records.** -/
theorem Logged.replay (h : Logged J A s) (hJ : J.format.Lawful A) :
    Notifications.replay J s.path s.log = .ok ⟨s.records, s.actionCount⟩ := by
  obtain ⟨actions, hA, hlog, hrec, hcount⟩ := h.log
  rw [hlog, replay_records hJ _ hA, hrec, hcount]

variable {t : Store} {l : Runs.Label Call Result}

/-- A clean step, by what it does to the log: its actions are appended, or a
compaction is tried. -/
theorem CleanStep.cases (h : CleanStep J E A s l t) (hs : s.Usable) :
    ((∀ n sources, l.call.operation ≠ .compactIfNeeded n sources) ∧ s.Wrote J l.answer.actions t) ∨
    ∃ n sources b, l.call.operation = .compactIfNeeded n sources ∧ l.answer = .compacted (.ok b) ∧
      Compacted J E { s with faults := [] } sources t b := by
  have hstep := h.step
  unfold Step exec at hstep
  rw [h.faults] at hstep
  have hs' : Usable { s with faults := [] } := ⟨hs.file, hs.available⟩
  by_cases hop : ∃ n sources, l.call.operation = .compactIfNeeded n sources
  · obtain ⟨n, sources, hop⟩ := hop
    obtain ⟨u, b, hu, hc⟩ := compact_cases (E := E) J { s with faults := [] } n sources
    rw [hop] at hstep
    simp only [perform, hu, Prod.map_apply, id_eq, Prod.mk.injEq] at hstep
    exact .inr ⟨n, sources, b, hop, hstep.2.symm, hstep.1 ▸ hc⟩
  · have hop' : ∀ n sources, l.call.operation ≠ .compactIfNeeded n sources :=
      fun n sources he => hop ⟨n, sources, he⟩
    have hw := perform_wrote (J := J) (E := E) hs' rfl hop'
    rw [hstep] at hw
    exact .inl ⟨hop', hw.log, hw.records, hw.count, hw.path, hw.file, fun _ => hw.faults rfl,
      hw.unavailable⟩

/-- Appends keep the log the rendering of the records. -/
theorem Logged.wrote {more : List StoreAction}
    (h : Logged J A s) (hw : s.Wrote J more t) (hA : ∀ a ∈ more, A a) : Logged J A t := by
  obtain ⟨actions, hall, hlog, hrec, hcount⟩ := h.log
  refine ⟨hw.usable h.usable, actions ++ more, ?_, ?_, ?_, ?_⟩
  · intro a ha
    rcases mem_append.mp ha with ha | ha
    · exact hall a ha
    · exact hA a ha
  · rw [hw.log, hlog, render_append, encodeUtf8_append]
  · rw [hw.records, hrec, foldl_append]
  · rw [hw.count, hcount, length_append]

/-- So does a compaction. -/
theorem Logged.compacted {b : Bool}
    {sources : Option (List SessionRecord)} (h : Logged J A s) (hA : Closed A)
    (hc : Compacted J E s sources t b) : Logged J A t := by
  obtain ⟨actions, hall, hlog, hrec, hcount⟩ := h.log
  cases hc with
  | skipped warned => exact ⟨⟨h.usable.file, h.usable.available⟩, actions, hall, hlog, hrec, hcount⟩
  | done warned =>
    refine ⟨⟨h.usable.file, h.usable.available⟩, (s.retained E sources).map .created, ?_,
      rfl, ?_, ?_⟩
    · intro a ha
      obtain ⟨r, hr, rfl⟩ := mem_map.mp ha
      obtain ⟨k, hk⟩ := mem_list.mp (retained_subset s sources hr)
      rw [hrec] at hk
      rcases actions_source actions hk with ⟨a, ha, hra⟩ | hnone
      · exact hA a (hall a ha) r hra
      · simp at hnone
    · rw [foldl_map]
      rfl
    · rw [length_map]

theorem Logged.step
    (hA : Closed A) (h : Logged J A s) (hstep : CleanStep J E A s l t) :
    Logged J A t := by
  rcases hstep.cases h.usable with ⟨-, hw⟩ | ⟨n, sources, b, -, -, hc⟩
  · exact h.wrote hw hstep.actions
  · have hquiet : Logged J A { s with faults := [] } := ⟨⟨h.usable.file, h.usable.available⟩, h.log⟩
    exact hquiet.compacted hA hc

/-- A directory this build uses, whose log is the actions in `A` written to it. -/
structure Dir.Holds (J : Json) (A : StoreAction → Prop) (dir : Dir)
    (actions : List StoreAction) : Prop where
  format : dir.unsupportedFormat = none
  policy : dir.unreadablePolicy = none
  log : dir.log = encodeUtf8 (J.format.render actions)
  actions : ∀ a ∈ actions, A a

theorem Logged.opened (hJ : J.format.Lawful A) {dir : Dir}
    (h : dir.Holds J A actions) : Logged J A (Store.«open» J dir) := by
  have hreplay := replay_records hJ dir.path h.actions
  unfold Store.«open»
  rw [h.format, h.policy, h.log, hreplay]
  exact ⟨⟨rfl, rfl⟩, actions, h.actions, rfl, rfl, rfl⟩

/-- **In every run without failures the log is the records.** -/
theorem Logged.run (hJ : J.format.Lawful A) (hA : Closed A) {dir : Dir} (h : dir.Holds J A actions)
    {tr : List (Runs.Label Call Result)}
    (hr : Runs.Run (CleanStep J E A) (Store.«open» J dir) tr s) : Logged J A s :=
  hr.invariant (Logged.opened hJ h) fun hl hs => hl.step hA hs

end Pohunek.Notifications
