/-
# Recovery after a crash

A crash leaves the log of the completed appends and a proper part of one
more. `open` reads it: a torn last action is left out, or taken when only its
newline is missing. But the torn part stays in the file, and the next append
goes behind it: the two make one line that is not an action, and the next
`open` refuses the whole log. So the store recovers from a crash exactly when
no byte of the interrupted append had reached the file (`crash_recovery_iff`).

What a run should leave is the fold of what its answers tell (`completed`):
the actions they name, and for a compaction that took place the records it
keeps.
-/
import Pohunek.Notifications.Compaction

namespace Pohunek.Notifications

open ReplayState List

/-! ### What the completed operations amount to -/

/-- The records a compaction keeps. -/
def keptRecords (E : Rfc3339) (records : Records) (sources : Option (List SessionRecord)) :
    List NotificationRecord :=
  let deleted := records.list.filter isTerminalTombstone
  (records.list.filter fun record => record.status ≠ .deleted) ++
    if deleted = [] then []
    else match sources with
      | none => deleted
      | some sources => Store.newestTombstones E sources deleted

theorem retained_eq (E : Rfc3339) (s : Store) (sources : Option (List SessionRecord)) :
    s.retained E sources = keptRecords E s.records sources := by
  unfold Store.retained keptRecords Store.terminalTombstones
  simp only
  split
  · rfl
  · cases sources <;> rfl

/-- The records after an operation that gave this answer. -/
def completed (E : Rfc3339) (records : Records) (l : Runs.Label Call Result) : Records :=
  match l.call.operation, l.answer with
  | .compactIfNeeded _ sources, .compacted (.ok true) =>
    (keptRecords E records sources).foldl Records.put ∅
  | _, answer => answer.actions.foldl applyAction records

variable {J : Json} {E : Rfc3339} {A : StoreAction → Prop}

variable {s : Store} {l : Runs.Label Call Result}

theorem completed_append
    (hop : ∀ n sources, l.call.operation ≠ .compactIfNeeded n sources) :
    completed E s.records l = l.answer.actions.foldl applyAction s.records := by
  unfold completed
  cases ho : l.call.operation with
  | compactIfNeeded n sources => exact absurd ho (hop n sources)
  | _ => rfl

/-- A step leaves what its answer tells. -/
theorem CleanStep.completed {t : Store} (h : CleanStep J E A s l t)
    (hs : s.Usable) : t.records = Notifications.completed E s.records l := by
  rcases h.cases hs with ⟨hop, hw⟩ | ⟨n, sources, b, hop, hanswer, hc⟩
  · rw [hw.records, completed_append hop]
  · unfold Notifications.completed
    rw [hop, hanswer]
    cases hc with
    | skipped warned => rfl
    | done warned =>
      rw [retained_eq]

/-- **A run leaves the fold of what its answers tell.** -/
theorem completed_run {t : Store} (hs : s.Usable) {tr : List (Runs.Label Call Result)}
    (hr : Runs.Run (CleanStep J E A) s tr t) :
    t.Usable ∧ t.records = tr.foldl (completed E) s.records := by
  refine hr.history ⟨hs, rfl⟩ ?_
  rintro tr t l u - ⟨hu, hrec⟩ hstep
  refine ⟨?_, ?_⟩
  · rcases hstep.cases hu with ⟨-, hw⟩ | ⟨n, sources, b, -, -, hc⟩
    · exact hw.usable hu
    · cases hc <;> exact ⟨hu.file, hu.available⟩
  · rw [foldl_append, ← hrec]
    exact hstep.completed hu

/-! ### A log that can be read -/

/-- The directory after a crash that leaves this log. -/
def Dir.leaving (dir : Dir) (log : ByteArray) : Dir := { dir with log := log }

variable {dir : Dir} {actions : List StoreAction}

/-- What a clean run leaves can be opened, and gives its records. -/
theorem Logged.reopen (hJ : J.format.Lawful A) (hdir : dir.Holds J A actions) (h : Logged J A s) :
    ∃ as, (dir.leaving s.log).Holds J A as ∧
    (Store.«open» J (dir.leaving s.log)).records = s.records := by
  obtain ⟨as, hA, hlog, hrec, -⟩ := h.log
  have hholds : (dir.leaving s.log).Holds J A as := ⟨hdir.format, hdir.policy, hlog, hA⟩
  refine ⟨as, hholds, ?_⟩
  unfold Store.«open»
  rw [hholds.format, hholds.policy, hholds.log, replay_records hJ _ hA, hrec]

/-! ### Recovery -/

/-- From a log left by a crash the store recovers: it opens with the records
`before`, or with the action `torn` applied to them, and so does the store
after any further run. -/
structure Recovers (J : Json) (E : Rfc3339) (A : StoreAction → Prop) (dir : Dir) (before : Records)
    (torn : StoreAction) : Prop where
  opened : (Store.«open» J dir).unavailable = none ∧
    ((Store.«open» J dir).records = before ∨ (Store.«open» J dir).records = applyAction before torn)
  reopened : ∀ tr t, Runs.Run (CleanStep J E A) (Store.«open» J dir) tr t →
    (Store.«open» J (dir.leaving t.log)).unavailable = none ∧
    ((Store.«open» J (dir.leaving t.log)).records = tr.foldl (completed E) before ∨
      (Store.«open» J (dir.leaving t.log)).records = tr.foldl (completed E)
      (applyAction before torn))

/-- A crash between two appends loses nothing. -/
theorem recovers_of_whole (hJ : J.format.Lawful A) (hA : Closed A)
    (hdir : dir.Holds J A actions) (hs : Logged J A s) (torn : StoreAction) :
    Recovers J E A (dir.leaving s.log) s.records torn := by
  obtain ⟨as, hholds, hrec⟩ := hs.reopen hJ hdir
  have hopened := Logged.opened hJ hholds
  refine ⟨⟨hopened.usable.available, .inl hrec⟩, fun tr t hr => ?_⟩
  have ht : Logged J A t := Logged.run hJ hA hholds hr
  obtain ⟨bs, hholds', hrec'⟩ := ht.reopen hJ hholds
  have hfold := (completed_run hopened.usable hr).2
  refine ⟨(Logged.opened hJ hholds').usable.available, .inl ?_⟩
  rw [hrec', hfold, hrec]

/-- The part of a line that a text ends in, as text. -/
theorem torn_text {x y line : List Char} {p rest : ByteArray}
    (hy : encodeUtf8 x ++ p = encodeUtf8 y) (hp : p ++ rest = encodeUtf8 line) :
    ∃ q, p = encodeUtf8 q ∧ q <+: line := by
  obtain ⟨q, rfl⟩ := isPrefix_of_utf8Encode_append_eq_utf8Encode p hy
  have hq : p = encodeUtf8 q := by
    rw [encodeUtf8_append] at hy
    exact (ByteArray.append_right_inj _).mp hy
  refine ⟨q, hq, ?_⟩
  rw [hq] at hp
  exact isPrefix_of_utf8Encode_append_eq_utf8Encode rest hp

theorem encodeUtf8_ne_empty {text : List Char} (h : text ≠ []) :
    encodeUtf8 text ≠ ByteArray.empty := by
  intro he
  have hnil : text <+: [] := isPrefix_of_utf8Encode_append_eq_utf8Encode ByteArray.empty
    (ByteArray.append_empty.trans he)
  exact h (prefix_nil.mp hnil)

/-- Opening leaves the log alone. -/
theorem open_log (J : Json) (dir : Dir) : (Store.«open» J dir).log = dir.log := by
  unfold Store.«open»
  cases dir.unsupportedFormat with
  | some reason => rfl
  | none =>
    cases dir.unreadablePolicy with
    | some reason => rfl
    | none => cases replay J dir.path dir.log <;> rfl

/-- A store that opens has a log of text. -/
theorem text_of_available (h : (Store.«open» J dir).unavailable = none) :
    (∃ text, dir.log = encodeUtf8 text) ∧ (Store.«open» J dir).Usable := by
  unfold Store.«open» at h ⊢
  cases hf : dir.unsupportedFormat with
  | some reason => rw [hf] at h; cases h
  | none =>
    cases hp : dir.unreadablePolicy with
    | some reason => rw [hf, hp] at h; cases h
    | none =>
      cases hr : replay J dir.path dir.log with
      | error e => rw [hf, hp, hr] at h; cases h
      | ok replayed =>
        refine ⟨?_, ⟨rfl, rfl⟩⟩
        unfold replay at hr
        cases hd : dir.log.utf8Decode? with
        | none => rw [hd] at hr; cases hr
        | some content =>
          have hsome : dir.log.utf8Decode?.isSome = true := by rw [hd]; rfl
          exact ⟨_, (ByteArray.utf8Encode_get_utf8Decode? (h := hsome)).symm⟩

variable {r : NotificationRecord}

/-- A create of a record without keys is appended. -/
theorem create_exec (hs : s.Usable) (hsource : r.sourceId = none)
    (hkey : r.dedupeKey = none) :
    ∃ t, s.exec J E ⟨.createOrDedupe r 0 0, []⟩ = (t, .create (.ok (.created r))) ∧
      s.Wrote J [.created r] t := by
  have hs' : Store.Usable { s with faults := [] } := ⟨hs.file, hs.available⟩
  have hplan : createPlan E s.records r 0 = .write (.created r) r.id (.created r) := by
    unfold createPlan findExistingSource
    rw [hsource, hkey]
  have hw := Store.noteContribution_wrote
    (Store.write_wrote J { s with faults := [] } (.created r)) r r.id 0
  refine ⟨_, ?_, hw.log, hw.records, hw.count, hw.path, hw.file, fun _ => hw.faults rfl,
    hw.unavailable⟩
  change (Store.createOrDedupe J E { s with faults := [] } r 0 0).map id Result.create = _
  rw [createOrDedupe_plan hs' rfl, hplan]
  rfl

variable {torn : StoreAction} {q : List Char}

/-- A log with a torn last action opens; the action is taken when only its
newline is missing. -/
theorem open_torn (hJ : J.format.Lawful A) (hformat : dir.unsupportedFormat = none)
    (hpolicy : dir.unreadablePolicy = none) (hall : ∀ a ∈ actions, A a)
    (htorn : A torn) (hq : q <+: J.encode torn)
    (hlog : dir.log = encodeUtf8 (J.format.render actions) ++ encodeUtf8 q) :
    (Store.«open» J dir).Usable ∧ (Store.«open» J dir).records =
      (if q = J.encode torn then actions ++ [torn] else actions).foldl applyAction ∅ := by
  have hreplay : ∃ count, replay J dir.path dir.log = .ok
      ⟨(if q = J.encode torn then actions ++ [torn] else actions).foldl applyAction ∅, count⟩ := by
    unfold replay
    rw [hlog, ← encodeUtf8_append, encodeUtf8_eq, utf8Decode?_utf8Encode]
    simp only
    rw [show ('\n' : Char) = J.format.sep from rfl, hJ.scan_records apply q actions 1 ⟨∅, 0⟩ hall,
      hJ.scan_torn apply htorn hq]
    by_cases hwhole : q = J.encode torn
    · rw [if_pos (show q = J.format.encode torn from hwhole), if_pos hwhole, replayFold,
        foldl_append]
      exact ⟨_, rfl⟩
    · rw [if_neg (show q ≠ J.format.encode torn from hwhole), if_neg hwhole, replayFold]
      exact ⟨_, rfl⟩
  obtain ⟨count, hreplay⟩ := hreplay
  unfold Store.«open»
  rw [hformat, hpolicy, hreplay]
  exact ⟨⟨rfl, rfl⟩, rfl⟩

/-- An append behind a torn one makes the log unreadable. -/
theorem unavailable_of_glued (hJ : J.format.Lawful A)
    (hall : ∀ a ∈ actions, A a) {next : StoreAction} (htorn : A torn) (hnext : A next)
    (hq : q <+: J.encode torn) (hne : q ≠ []) (hlog : dir.log =
      encodeUtf8 (J.format.render actions) ++ encodeUtf8 q ++ encodeUtf8 (J.format.line next)) :
    (Store.«open» J dir).unavailable ≠ none := by
  have hreplay : ∃ line source,
    replay J dir.path dir.log = .error (.storeParse dir.path line source) := by
    unfold replay
    rw [hlog, ← encodeUtf8_append, ← encodeUtf8_append, encodeUtf8_eq, utf8Decode?_utf8Encode]
    simp only
    have hscan := hJ.scan_records apply (q ++ J.format.line next) actions 1 ⟨∅, 0⟩ hall
    obtain ⟨m, hm⟩ := hJ.scan_glued apply htorn hnext hq hne [] (1 + actions.length)
      (actions.foldl apply ⟨∅, 0⟩)
    rw [append_nil] at hm
    rw [hm, ← append_assoc] at hscan
    rw [show ('\n' : Char) = J.format.sep from rfl, hscan]
    exact ⟨_, _, rfl⟩
  obtain ⟨line, source, hreplay⟩ := hreplay
  unfold Store.«open»
  rw [hreplay]
  cases dir.unsupportedFormat with
  | some reason => exact nofun
  | none =>
    cases dir.unreadablePolicy with
    | some reason => exact nofun
    | none => exact nofun

/-- A store opened on a log with a torn end takes a create, and its log is
lost. -/
theorem lost_after_create (hJ : J.format.Lawful A) (hs : (Store.«open» J dir).Usable)
    (hall : ∀ a ∈ actions, A a) (htorn : A torn)
    (hq : q <+: J.encode torn) (hne : q ≠ [])
    (hlog : dir.log = encodeUtf8 (J.format.render actions) ++ encodeUtf8 q)
    (hr : A (.created r)) (hsource : r.sourceId = none) (hkey : r.dedupeKey = none) :
    ∃ t, (Store.«open» J dir).exec J E ⟨.createOrDedupe r 0 0, []⟩ =
    (t, .create (.ok (.created r))) ∧ (Store.«open» J (dir.leaving t.log)).unavailable ≠ none := by
  obtain ⟨t, hexec, hw⟩ := create_exec (J := J) (E := E) hs hsource hkey
  refine ⟨t, hexec, unavailable_of_glued hJ hall htorn hr hq hne ?_⟩
  calc t.log = dir.log ++ encodeUtf8 (J.format.render [.created r]) := by rw [hw.log, open_log]
    _ = encodeUtf8 (J.format.render actions) ++ encodeUtf8 q ++
    encodeUtf8 (J.format.line (.created r)) := by
        rw [hlog, LineLog.Format.render_single]

/-- **Recovery after a crash.** After any run whose appends succeed, let a
crash leave the log with `p`, a proper part of the line of one more action.
The store recovers, after any further run, exactly when `p` is empty. -/
theorem crash_recovery_iff (hJ : J.format.Lawful A) (hA : Closed A) {r : NotificationRecord}
    (hr : A (.created r)) (hsource : r.sourceId = none) (hkey : r.dedupeKey = none) {dir : Dir}
    {actions : List StoreAction} (hdir : dir.Holds J A actions) {tr : List (Runs.Label Call Result)}
    {s : Store} (hrun : Runs.Run (CleanStep J E A) (Store.«open» J dir) tr s) {torn : StoreAction}
    (htorn : A torn) {p rest : ByteArray} (hp : p ++ rest = encodeUtf8 (J.format.line torn))
    (hproper : rest ≠ ByteArray.empty) :
    Recovers J E A (dir.leaving (s.log ++ p))
    (tr.foldl (completed E) (actions.foldl applyAction ∅)) torn ↔
      p = ByteArray.empty := by
  have hlogged : Logged J A s := Logged.run hJ hA hdir hrun
  have hopened := Logged.opened hJ hdir
  have hstart : (Store.«open» J dir).records = actions.foldl applyAction ∅ := by
    unfold Store.«open»
    rw [hdir.format, hdir.policy, hdir.log, replay_records hJ _ hdir.actions]
  have hrecords : s.records = tr.foldl (completed E) (actions.foldl applyAction ∅) := by
    rw [← hstart]
    exact (completed_run hopened.usable hrun).2
  constructor
  · intro hrec
    by_contra hne
    obtain ⟨as, hall, hlog, -, -⟩ := hlogged.log
    -- the log that was left is text, so the torn part is a start of the line's text
    obtain ⟨⟨text, htext⟩, husable⟩ := text_of_available hrec.opened.1
    have htext' : encodeUtf8 (J.format.render as) ++ p = encodeUtf8 text := by
      rw [← hlog]; exact htext
    obtain ⟨q, rfl, hq⟩ := torn_text htext' hp
    have hqne : q ≠ [] := by
      rintro rfl
      exact hne rfl
    have hq' : q <+: J.encode torn := by
      rcases prefix_concat_iff.mp hq with hwhole | hq
      · refine absurd ?_ hproper
        rw [hwhole] at hp
        exact (ByteArray.append_right_inj _).mp (hp.trans ByteArray.append_empty.symm)
      · exact hq
    -- one more append, and the line is no action
    obtain ⟨t, hexec, hlost⟩ := lost_after_create (E := E) hJ husable hall htorn hq' hqne
      (congrArg (· ++ encodeUtf8 q) hlog) hr hsource hkey
    have hstep : CleanStep J E A (Store.«open» J (dir.leaving (s.log ++ encodeUtf8 q)))
        ⟨⟨.createOrDedupe r 0 0, []⟩, .create (.ok (.created r))⟩ t :=
      ⟨hexec, rfl, fun a ha => mem_singleton.mp ha ▸ hr⟩
    exact hlost (hrec.reopened _ t (.single hstep)).1
  · rintro rfl
    rw [ByteArray.append_empty, ← hrecords]
    exact recovers_of_whole hJ hA hdir hlogged torn

/-- The sample run, cut before its next append. -/
theorem crash_recovery_between_appends :
    let s := ((Store.«open» sampleJson sampleDir).execAll sampleJson sampleTime sampleCalls).1
    s.records.list = [sampleDeleted, sampleRecord "n2"] ∧
      Recovers sampleJson sampleTime (· ∈ sampleActions)
      (sampleDir.leaving (s.log ++ ByteArray.empty))
        (((Store.«open» sampleJson sampleDir).execAll sampleJson sampleTime sampleCalls).2.foldl
          (completed sampleTime) ∅) (.created (sampleRecord "n1")) := by
  intro s
  have hs := Store.execAll_run (J := sampleJson) (E := sampleTime) (A := (· ∈ sampleActions))
    sampleCalls (Store.«open» sampleJson sampleDir) (by decide +kernel)
  have hline : encodeUtf8 (sampleJson.format.line (.created (sampleRecord "n1"))) ≠
    ByteArray.empty :=
    encodeUtf8_ne_empty (append_ne_nil_of_right_ne_nil _ (cons_ne_nil _ _))
  refine ⟨by decide +kernel, ?_⟩
  exact (crash_recovery_iff sampleJson_lawful sampleActions_closed (r := sampleRecord "n2")
    (by decide +kernel)
    rfl rfl sampleDir_holds hs (by decide +kernel) (ByteArray.empty_append) hline).mpr rfl

/-- A crash in the middle of an append, then the same create again: the store
opens without the torn action, takes the create, and is lost at the next
`open`. -/
theorem torn_append_loses_log :
    let create (id : String) : Call := ⟨.createOrDedupe (sampleRecord id) 0 0, []⟩
    let line := sampleJson.format.line (.created (sampleRecord "n2"))
    ∃ s t : Store,
      (Store.«open» sampleJson sampleDir).exec sampleJson sampleTime (create "n1") =
        (s, .create (.ok (.created (sampleRecord "n1")))) ∧
      encodeUtf8 (line.take 20) ++ encodeUtf8 (line.drop 20) = encodeUtf8 line ∧
      (Store.«open» sampleJson
        (sampleDir.leaving (s.log ++ encodeUtf8 (line.take 20)))).unavailable = none ∧
      (Store.«open» sampleJson (sampleDir.leaving (s.log ++ encodeUtf8 (line.take 20)))).exec
        sampleJson sampleTime (create "n2") = (t, .create (.ok (.created (sampleRecord "n2")))) ∧
      (Store.«open» sampleJson (sampleDir.leaving t.log)).unavailable ≠ none := by
  intro create line
  have hn1 : StoreAction.created (sampleRecord "n1") ∈ sampleActions := by decide +kernel
  have hn2 : StoreAction.created (sampleRecord "n2") ∈ sampleActions := by decide +kernel
  have hall : ∀ a ∈ [StoreAction.created (sampleRecord "n1")], a ∈ sampleActions :=
    fun a ha => mem_singleton.mp ha ▸ hn1
  have hcut : line.take 20 <+: sampleJson.encode (.created (sampleRecord "n2")) := by decide +kernel
  obtain ⟨s, hs, hw⟩ := create_exec (J := sampleJson) (E := sampleTime) (r := sampleRecord "n1")
    (Logged.opened sampleJson_lawful sampleDir_holds).usable rfl rfl
  have hlog : s.log = encodeUtf8 (sampleJson.format.render [.created (sampleRecord "n1")]) := by
    rw [hw.log, open_log]
    exact ByteArray.empty_append
  have hleft := congrArg (· ++ encodeUtf8 (line.take 20)) hlog
  have husable : (Store.«open» sampleJson
    (sampleDir.leaving (s.log ++ encodeUtf8 (line.take 20)))).Usable :=
    (open_torn sampleJson_lawful rfl rfl hall hn2 hcut hleft).1
  obtain ⟨t, ht, hlost⟩ :=
    lost_after_create (E := sampleTime) sampleJson_lawful husable hall hn2 hcut
    (by decide +kernel) hleft hn2 rfl rfl
  refine ⟨s, t, hs, ?_, husable.available, ht, hlost⟩
  rw [← encodeUtf8_append, take_append_drop]

end Pohunek.Notifications
