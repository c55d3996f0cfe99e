/-
# A rewrite and the snapshot it leaves

An entry may carry the line this build wrote for it. `Entry.Cached` says that
such a line is what serialising the record gives, and that the record is one
that is read back as it is. Under it a rewrite from memoised lines has the
bytes of serialising every record (`emit_eq_ok`), the body decodes to the
records that were written (`decode_render`), and so what is remembered of a
rewrite is a decode of the body (`Snapshot.Valid.remember`).

The one thing that is not: a rejected line that ends in a carriage return is
remembered as it was read and written, and read back without it. Until then
`Snapshot.Valid` relates the rejected lines by `Reads`.
-/
import Pohunek.Metadata.Decode

namespace Pohunek.Metadata

open LineLog Fallible Keyed StoreRecords Record Records Kind List

variable {S : Serde}

/-! ### Records in the order they are written -/

/-- The records in the order they are written. -/
def StoreRecords.toList (stored : StoreRecords) : List Record :=
  stored.resume.map .resume ++ (stored.worktrees.map .worktree ++
    (stored.projects.map .project ++ stored.sessions.map .session))

/-- The records as they are read back. -/
def StoreRecords.normalised (stored : StoreRecords) : StoreRecords :=
  { stored with sessions := stored.sessions.map fun record =>
      mirrorWorkerInstanceId { record with schemaVersion := storeSchemaVersion } }

theorem StoreRecords.ofList_toList (stored : StoreRecords) : ofList stored.toList = stored := by
  ext1
  all_goals
    simp [ofList, toList, filterMap_append, filterMap_map, Function.comp_def, resume?,
      worktree?, project?, session?]

theorem StoreRecords.toList_normalised (stored : StoreRecords) :
    stored.normalised.toList = stored.toList.map Record.normalised := by
  simp only [toList, normalised, map_append, map_map]
  rfl

theorem StoreRecords.toList_inj {a b : StoreRecords} (h : a.toList = b.toList) : a = b := by
  rw [← ofList_toList a, h, ofList_toList]

variable {records : Records}

/-- What `emit` asks of the records, on the list. -/
theorem Records.persistable_iff :
    records.persistable = true ↔ ∀ record ∈ records.owned.toList, record.persistable := by
  simp only [persistable, Bool.and_eq_true, all_eq_true, owned, toList,
    map_map, mem_append, mem_map]
  constructor
  · rintro ⟨hresume, hsessions⟩ record
      (⟨entry, hentry, rfl⟩ | ⟨entry, -, rfl⟩ | ⟨entry, -, rfl⟩ | ⟨entry, hentry, rfl⟩)
    · exact hresume entry hentry
    · rfl
    · rfl
    · exact hsessions entry hentry
  · intro h
    exact ⟨fun entry hentry => h _ (.inl ⟨entry, hentry, rfl⟩),
      fun entry hentry => h _ (.inr (.inr (.inr ⟨entry, hentry, rfl⟩)))⟩

/-! ### Serialising every record -/

/-- The lines of records, each serialised. -/
def renderRecords (S : Serde) : List Record → Except String Text
  | [] => .ok []
  | record :: rest => do
    let line ← serializeLine S record
    let body ← renderRecords S rest
    return line ++ '\n' :: body

/-- **The fresh serialisation of every record**, followed by the texts of the
rejected lines. -/
def render (S : Serde) (stored : StoreRecords) (rejected : List Text) : Except String Text := do
  let body ← renderRecords S stored.toList
  return body ++ unlines '\n' rejected

variable {body : Text}

theorem renderRecords_ok_iff : ∀ {records : List Record},
    renderRecords S records = .ok body ↔
      ∃ texts, List.Forall₂ (fun record text => serializeLine S record = .ok text) records texts ∧
        unlines '\n' texts = body := by
  intro records
  induction records generalizing body with
  | nil => simp [renderRecords]
  | cons record records ih =>
    rw [renderRecords, bind_ok_iff]
    constructor
    · rintro ⟨line, hline, h⟩
      obtain ⟨rest, hrest, h⟩ := bind_ok_iff.mp h
      obtain ⟨texts, htexts, rfl⟩ := ih.mp hrest
      exact ⟨line :: texts, .cons hline htexts, by rw [unlines_cons]; exact pure_ok_iff.mp h⟩
    · rintro ⟨texts, htexts, rfl⟩
      obtain ⟨line, rest, hline, hrest, rfl⟩ := forall₂_cons_left_iff.mp htexts
      exact ⟨line, hline, bind_ok_iff.mpr ⟨_, ih.mpr ⟨rest, hrest, rfl⟩, by rw [unlines_cons]; rfl⟩⟩

theorem renderRecords_append {a b : List Record} {body' : Text} (ha : renderRecords S a = .ok body)
    (hb : renderRecords S b = .ok body') : renderRecords S (a ++ b) = .ok (body ++ body') := by
  obtain ⟨texts, htexts, rfl⟩ := renderRecords_ok_iff.mp ha
  obtain ⟨texts', htexts', rfl⟩ := renderRecords_ok_iff.mp hb
  exact renderRecords_ok_iff.mpr ⟨texts ++ texts', rel_append htexts htexts', unlines_append _ _⟩

/-- A rejected line that is written is rejected when it is read again. -/
theorem reread (hS : S.Lawful) : ∀ {rejected : List RejectedLine},
    (∀ line ∈ rejected, '\n' ∉ line.text ∧ Holds S line.text (.error line)) → ∃ rejected',
      List.Forall₂ (fun line line' => Holds S (chomp '\r' line.text) (.error line'))
      rejected rejected'
  | [], _ => ⟨[], .nil⟩
  | line :: rejected, h => by
    obtain ⟨⟨-, hholds⟩, hrest⟩ := forall_mem_cons.mp h
    obtain ⟨line', hline'⟩ := hholds.chomp hS
    obtain ⟨rejected', hreread⟩ := reread hS hrest
    exact ⟨line' :: rejected', .cons hline' hreread⟩

variable {stored : StoreRecords} {rejected : List RejectedLine}

/-- **A body decodes to the records that were written** and to the rejected
lines, each without a carriage return at its end. -/
theorem decode_render (hS : S.Lawful) (hpersistable : ∀ record ∈ stored.toList, record.persistable)
    (hrejected : ∀ line ∈ rejected, '\n' ∉ line.text ∧ Holds S line.text (.error line))
    (h : render S stored (rejected.map (·.text)) = .ok body) :
    ∃ rejected', decode S body = .ok (stored.normalised, rejected') ∧
      List.Forall₂ (fun line line' => line'.text = chomp '\r' line.text) rejected rejected' := by
  obtain ⟨recordBody, hrecords, h⟩ := bind_ok_iff.mp h
  obtain ⟨texts, htexts, rfl⟩ := renderRecords_ok_iff.mp hrecords
  obtain rfl := pure_ok_iff.mp h
  -- every record line holds its record, every rejected line is rejected again
  have hlines : List.Forall₂ (fun text outcome => Holds S (chomp '\r' text) outcome) texts
      (stored.toList.map fun record => .ok record.normalised) := by
    rw [forall₂_map_right_iff]
    refine List.Forall₂.flip ?_
    have := (Pointwise.and_right_iff.mpr ⟨htexts.flip, hpersistable⟩).flip
    refine this.imp fun record text hline => ?_
    obtain ⟨hserialised, hp⟩ := hline
    show Holds S (chomp '\r' text) (.ok record.normalised)
    rw [chomp_of_getLast? (hS.oneLine hserialised).2.2]
    exact holds_serializeLine hS hp hserialised
  obtain ⟨rejected', hreread⟩ := reread hS hrejected
  refine ⟨rejected', ?_, hreread.imp fun line line' hline => hline.text_eq⟩
  have hsep : ∀ text ∈ texts ++ rejected.map (·.text), '\n' ∉ text := by
    intro text htext
    rcases mem_append.mp htext with htext | htext
    · obtain ⟨record, -, hline⟩ := Pointwise.exists_left htexts htext
      exact (hS.oneLine hline).1
    · obtain ⟨line, hline, rfl⟩ := mem_map.mp htext
      exact (hrejected line hline).1
  have hall : List.Forall₂ (fun text outcome => Holds S (chomp '\r' text) outcome)
      (texts ++ rejected.map (·.text))
      (stored.toList.map (fun record => .ok record.normalised) ++ rejected'.map .error) := by
    refine rel_append hlines ?_
    rw [forall₂_map_left_iff, forall₂_map_right_iff]
    exact hreread
  rw [← unlines_append, decode_unlines hsep hall]
  simp only [filterMap_append, filterMap_map, Function.comp_def, Except.toOption, rejectedOf,
    filterMap_eq_map', filterMap_some, filterMap_none, append_nil, nil_append]
  rw [← toList_normalised, ofList_toList]

/-! ### Entries -/

section Entries

variable {α : Type} {kind : Kind α}

/-- A memoised line is the line of the record, and the record is read back as
it is. -/
structure Entry.Cached (S : Serde) (kind : Kind α) (entry : Entry α) : Prop where
  settled : entry.pending = false
  line : ∀ line, entry.line = some line →
    serializeLine S (kind.wrap entry.record) = .ok line ∧
    (kind.wrap entry.record).normalised = kind.wrap entry.record

theorem Entry.Cached.new (record : α) : (Entry.new record).Cached S kind :=
  ⟨rfl, fun _ h => nomatch h⟩

/-- An entry after it was written: a line that was serialised just now is
pending. -/
structure Entry.Written (S : Serde) (kind : Kind α) (entry : Entry α) : Prop where
  line : ∃ line, entry.line = some line ∧ serializeLine S (kind.wrap entry.record) = .ok line
  stable : entry.pending = false → (kind.wrap entry.record).normalised = kind.wrap entry.record

theorem emitEntry_ok {entry written : Entry α} {line : Text} (hcached : entry.Cached S kind)
    (h : kind.emitEntry S entry = .ok (line, written)) :
    serializeLine S (kind.wrap entry.record) = .ok line ∧ written.record = entry.record ∧
    written.Written S kind := by
  unfold emitEntry at h
  split at h
  · rename_i memoised hline
    obtain ⟨rfl, rfl⟩ := Prod.mk.inj (Except.ok.inj h)
    obtain ⟨hserialised, hstable⟩ := hcached.line memoised hline
    exact ⟨hserialised, rfl, ⟨memoised, hline, hserialised⟩, fun _ => hstable⟩
  · obtain ⟨fresh, hserialised, h⟩ := bind_ok_iff.mp h
    obtain ⟨rfl, rfl⟩ := Prod.mk.inj (pure_ok_iff.mp h)
    exact ⟨hserialised, rfl, ⟨fresh, rfl, hserialised⟩, fun hpending => nomatch hpending⟩

/-- **The lines of one kind are those of serialising every record.** -/
theorem Kind.emit_ok : ∀ {entries written : List (Entry α)} {body : Text},
    (∀ entry ∈ entries, entry.Cached S kind) → kind.emit S entries = .ok (body, written) →
      renderRecords S (entries.map fun entry => kind.wrap entry.record) = .ok body ∧
      written.map (·.record) = entries.map (·.record) ∧ ∀ entry ∈ written, entry.Written S kind
  | [], written, body, _, h => by
    cases h
    exact ⟨rfl, rfl, by simp⟩
  | entry :: entries, written, body, hcached, h => by
    obtain ⟨hentry, hentries⟩ := forall_mem_cons.mp hcached
    obtain ⟨⟨line, first⟩, hfirst, h⟩ := bind_ok_iff.mp h
    obtain ⟨⟨rest, more⟩, hrest, h⟩ := bind_ok_iff.mp h
    cases pure_ok_iff.mp h
    obtain ⟨hline, hrecord, hwritten⟩ := emitEntry_ok hentry hfirst
    obtain ⟨hbody, hrecords, hmore⟩ := emit_ok hentries hrest
    refine ⟨?_, by simp [hrecord, hrecords], forall_mem_cons.mpr ⟨hwritten, hmore⟩⟩
    exact bind_ok_iff.mpr ⟨line, hline, bind_ok_iff.mpr ⟨rest, hbody, rfl⟩⟩

/-- A kind picks a record of its own out of a decode, and nothing else. -/
def Kind.Picks (kind : Kind α) : Prop := ∀ record x, kind.pick (.ofList [record]) = some x →
    record = kind.wrap x

theorem Kind.picks : resume.Picks ∧ worktree.Picks ∧ project.Picks ∧ session.Picks := by
  refine ⟨?_, ?_, ?_, ?_⟩
  all_goals
    intro record x h
    cases record <;> simp_all [resume, worktree, project, session, ofList, only, resume?, worktree?,
      project?, session?]

/-- A line that holds a record, parsed alone. -/
theorem Holds.parsed {text : Text} {outcome : Except RejectedLine Record} (h : Holds S text outcome)
    (hsep : '\n' ∉ text) : ∃ line, parseLines S text = .ok [line] ∧ sortLine S line = outcome := by
  have hvisible := h.visible
  have hne : text ≠ [] := by
    rintro rfl
    exact absurd hvisible (by decide)
  obtain ⟨line, ⟨hparse, -⟩, hsort⟩ := h
  have hlines : lines '\n' '\r' text = [text] := by
    rw [lines, split_open hsep hne]
    rfl
  refine ⟨line, ?_, hsort⟩
  rw [parseLines, hlines, parseFrom_ok_iff]
  simpa [hvisible] using hparse

/-- **A written entry settles** to the record as it is read back. -/
theorem settleEntry_some (hS : S.Lawful) (hpicks : kind.Picks) {entry settled : Entry α}
    (hwritten : entry.Written S kind) (hpersistable : (kind.wrap entry.record).persistable)
    (h : kind.settleEntry S entry = some settled) :
    kind.wrap settled.record = (kind.wrap entry.record).normalised ∧ settled.Cached S kind := by
  obtain ⟨line, hline, hserialised⟩ := hwritten.line
  rw [settleEntry] at h
  split at h
  · -- the line was serialised for this body
    obtain ⟨parsed, hparsed, hsort⟩ :=
      (holds_serializeLine hS hpersistable hserialised).parsed (hS.oneLine hserialised).1
    have hpartition : partitionLines S [parsed] =
      (.ofList [(kind.wrap entry.record).normalised], []) := by
      simp [partitionLines, hsort, Except.toOption, rejectedOf]
    rw [hline] at h
    simp only [Option.bind_eq_bind, Option.bind_some, hparsed, Except.toOption, hpartition,
      isEmpty_nil, guard, if_true, pure, Option.bind_eq_some_iff] at h
    obtain ⟨decoded, hpick, serialised, hserialised', h⟩ := h
    cases h
    have hrecord := hpicks _ _ hpick
    refine ⟨hrecord.symm, rfl, fun line' hline' => ?_⟩
    have hsame : (if serialised ≠ line then serialised else line) = serialised := by
      split
      · rfl
      · rename_i heq
        exact (not_ne_iff.mp heq).symm
    rw [hsame] at hline'
    cases hline'
    refine ⟨?_, ?_⟩
    · cases hok : serializeLine S (kind.wrap decoded) with
      | ok text =>
        rw [hok] at hserialised'
        rw [Option.some.inj hserialised']
      | error error =>
        rw [hok] at hserialised'
        cases hserialised'
    · rw [← hrecord]
      exact normalised_normalised _
  · rename_i hpending
    cases h
    have hpending : entry.pending = false := by simpa using hpending
    refine ⟨(hwritten.stable hpending).symm, hpending, fun line' hline' => ?_⟩
    rw [hline] at hline'
    cases hline'
    exact ⟨hserialised, hwritten.stable hpending⟩

theorem Kind.settle_some (hS : S.Lawful) (hpicks : kind.Picks) :
    ∀ {entries settled : List (Entry α)}, (∀ entry ∈ entries, entry.Written S kind) →
    (∀ entry ∈ entries, (kind.wrap entry.record).persistable) →
      kind.settle S entries = some settled → settled.map (fun entry => kind.wrap entry.record) =
        (entries.map fun entry => kind.wrap entry.record).map Record.normalised ∧
      ∀ entry ∈ settled, entry.Cached S kind
  | [], settled, _, _, h => by
    cases h
    simp
  | entry :: entries, settled, hwritten, hpersistable, h => by
    rw [forall_mem_cons] at hwritten hpersistable
    rw [settle, mapM_cons] at h
    obtain ⟨first, hfirst, h⟩ := Option.bind_eq_some_iff.mp h
    obtain ⟨rest, hrest, h⟩ := Option.bind_eq_some_iff.mp h
    cases h
    obtain ⟨hrecord, hcached⟩ := settleEntry_some hS hpicks hwritten.1 hpersistable.1 hfirst
    obtain ⟨hrecords, hcacheds⟩ := settle_some hS hpicks hwritten.2 hpersistable.2 hrest
    exact ⟨by simp [hrecord, hrecords], forall_mem_cons.mpr ⟨hcached, hcacheds⟩⟩

end Entries

/-! ### The body of a rewrite -/

/-- Every memoised line is that of its record. -/
structure Records.Cached (S : Serde) (records : Records) : Prop where
  resume : ∀ entry ∈ records.resume, entry.Cached S .resume
  worktrees : ∀ entry ∈ records.worktrees, entry.Cached S .worktree
  projects : ∀ entry ∈ records.projects, entry.Cached S .project
  sessions : ∀ entry ∈ records.sessions, entry.Cached S .session

structure Records.Written (S : Serde) (records : Records) : Prop where
  resume : ∀ entry ∈ records.resume, entry.Written S .resume
  worktrees : ∀ entry ∈ records.worktrees, entry.Written S .worktree
  projects : ∀ entry ∈ records.projects, entry.Written S .project
  sessions : ∀ entry ∈ records.sessions, entry.Written S .session

theorem Records.cached_fromStoreRecords (stored : StoreRecords) :
    (fromStoreRecords stored).Cached S := by
  have hnew : ∀ {α : Type} {kind : Kind α} (l : List α), ∀ entry ∈ l.map Entry.new,
    entry.Cached S kind := by
    intro α kind l entry hentry
    obtain ⟨record, -, rfl⟩ := mem_map.mp hentry
    exact .new record
  exact ⟨hnew _, hnew _, hnew _, hnew _⟩

theorem Records.owned_fromStoreRecords (stored : StoreRecords) :
    (fromStoreRecords stored).owned = stored := by
  simp [fromStoreRecords, owned, Function.comp_def, Entry.new]

/-- **A rewrite from memoised lines has the bytes of serialising every
record**, and its entries are those it was given, with their lines. -/
theorem emit_eq_ok {written : Records} {rejected : List Text} (hcached : records.Cached S)
    (h : emit S records rejected = .ok (body, written)) :
    render S records.owned rejected = .ok body ∧ records.persistable ∧
      written.owned = records.owned ∧ written.Written S := by
  unfold emit at h
  split at h
  · rename_i hpersistable
    obtain ⟨⟨resumeBody, resume⟩, hresume, h⟩ := bind_ok_iff.mp (mapError_ok_iff.mp h)
    obtain ⟨⟨worktreeBody, worktrees⟩, hworktrees, h⟩ := bind_ok_iff.mp h
    obtain ⟨⟨projectBody, projects⟩, hprojects, h⟩ := bind_ok_iff.mp h
    obtain ⟨⟨sessionBody, sessions⟩, hsessions, h⟩ := bind_ok_iff.mp h
    cases pure_ok_iff.mp h
    obtain ⟨hbody₁, hrecords₁, hwritten₁⟩ := emit_ok hcached.resume hresume
    obtain ⟨hbody₂, hrecords₂, hwritten₂⟩ := emit_ok hcached.worktrees hworktrees
    obtain ⟨hbody₃, hrecords₃, hwritten₃⟩ := emit_ok hcached.projects hprojects
    obtain ⟨hbody₄, hrecords₄, hwritten₄⟩ := emit_ok hcached.sessions hsessions
    refine ⟨?_, hpersistable, ?_, ⟨hwritten₁, hwritten₂, hwritten₃, hwritten₄⟩⟩
    · have hall := renderRecords_append hbody₁
        (renderRecords_append hbody₂ (renderRecords_append hbody₃ hbody₄))
      refine bind_ok_iff.mpr ⟨resumeBody ++ (worktreeBody ++ (projectBody ++ sessionBody)), ?_, ?_⟩
      · rw [← hall]
        simp only [toList, owned, map_map]
        rfl
      · simp [pure, Except.pure]
    · simp only [owned, hrecords₁, hrecords₂, hrecords₃, hrecords₄]
  · cases h

/-- **What is remembered of a rewrite** are the records as they are read
back. -/
theorem remember_eq_some (hS : S.Lawful)
    {snapshot : Snapshot} (hwritten : records.Written S) (hpersistable : records.persistable)
    (h : remember S body records rejected = some snapshot) :
    snapshot.content = body ∧ snapshot.rejected = rejected ∧
      snapshot.records.owned = records.owned.normalised ∧ snapshot.records.Cached S := by
  have hall := persistable_iff.mp hpersistable
  simp only [owned, toList, map_map, forall_mem_append, forall_mem_map,
    Function.comp_apply] at hall
  obtain ⟨hall₁, hall₂, hall₃, hall₄⟩ := hall
  obtain ⟨resume, hresume, h⟩ := Option.bind_eq_some_iff.mp h
  obtain ⟨worktrees, hworktrees, h⟩ := Option.bind_eq_some_iff.mp h
  obtain ⟨projects, hprojects, h⟩ := Option.bind_eq_some_iff.mp h
  obtain ⟨sessions, hsessions, h⟩ := Option.bind_eq_some_iff.mp h
  cases h
  obtain ⟨hpicks₁, hpicks₂, hpicks₃, hpicks₄⟩ := picks
  obtain ⟨hrecords₁, hcached₁⟩ := settle_some hS hpicks₁ hwritten.resume hall₁ hresume
  obtain ⟨hrecords₂, hcached₂⟩ := settle_some hS hpicks₂ hwritten.worktrees hall₂ hworktrees
  obtain ⟨hrecords₃, hcached₃⟩ := settle_some hS hpicks₃ hwritten.projects hall₃ hprojects
  obtain ⟨hrecords₄, hcached₄⟩ := settle_some hS hpicks₄ hwritten.sessions hall₄ hsessions
  refine ⟨rfl, rfl, toList_inj ?_, ⟨hcached₁, hcached₂, hcached₃, hcached₄⟩⟩
  rw [toList_normalised]
  simp only [toList, owned, map_append, map_map]
  simp only [map_map] at hrecords₁ hrecords₂ hrecords₃ hrecords₄
  exact congrArg₂ _ hrecords₁ (congrArg₂ _ hrecords₂ (congrArg₂ _ hrecords₃ hrecords₄))

/-! ### Snapshots -/

/-- The rejected line of a snapshot, and the one its content has: they differ
at most by a carriage return that the content lost when it was written. -/
def Reads (line read : RejectedLine) : Prop := read.text = line.text ∨
    read.text = chomp '\r' line.text

/-- A snapshot is a decode of its content. -/
structure Snapshot.Valid (S : Serde) (snapshot : Snapshot) : Prop where
  cached : snapshot.records.Cached S
  decoded : ∃ rejected, decode S snapshot.content = .ok (snapshot.records.owned, rejected) ∧
    List.Forall₂ Reads snapshot.rejected rejected
  rejected : ∀ line ∈ snapshot.rejected, '\n' ∉ line.text ∧ Holds S line.text (.error line)

variable {content : Text}

/-- What a file of lines holds, line by line. -/
theorem decode_rejected (h : decode S content = .ok (stored, rejected)) :
    ∀ line ∈ rejected, '\n' ∉ line.text ∧ Holds S line.text (.error line) := by
  obtain ⟨outcomes, hholds, -, rfl⟩ := decode_eq_ok_iff.mp h
  intro line hline
  obtain ⟨outcome, houtcome, hrejected⟩ := mem_filterMap.mp hline
  obtain ⟨text, htext, hheld⟩ := Pointwise.exists_left hholds houtcome
  cases outcome with
  | ok record => cases hrejected
  | error line' =>
    cases hrejected
    rw [hheld.text_eq]
    exact ⟨sep_notMem_lines (mem_filter.mp htext).1, hheld⟩

/-- A loaded record is read back as it is. -/
theorem decode_stable (hS : S.Lawful)
    (h : decode S content = .ok (stored, rejected)) : stored.normalised = stored := by
  obtain ⟨outcomes, hholds, rfl, -⟩ := decode_eq_ok_iff.mp h
  have hstable : ∀ record ∈ outcomes.filterMap Except.toOption, record.normalised = record := by
    intro record hrecord
    obtain ⟨outcome, houtcome, hok⟩ := mem_filterMap.mp hrecord
    obtain ⟨text, -, hline⟩ := Pointwise.exists_left hholds houtcome
    cases outcome with
    | error line => cases hok
    | ok record' =>
      cases hok
      exact (hline.stable hS).2
  ext1
  iterate 3 rfl
  refine (map_congr_left (g := id) fun record hrecord => ?_).trans (map_id _)
  obtain ⟨wrapped, hwrapped, hsession⟩ := mem_filterMap.mp hrecord
  cases wrapped with
  | session record' =>
    cases hsession
    exact session.inj (hstable _ hwrapped)
  | resume | worktree | project => cases hsession

theorem Snapshot.Valid.ofDecode (h : decode S content = .ok (stored, rejected)) :
    Snapshot.Valid S ⟨content, .fromStoreRecords stored, rejected⟩ where
  cached := cached_fromStoreRecords stored
  decoded := ⟨rejected, by rw [owned_fromStoreRecords]; exact h, forall₂_same.mpr fun _ _ => .inl rfl⟩
  rejected := decode_rejected h

theorem Snapshot.Valid.empty : Snapshot.Valid S .empty where
  cached := cached_fromStoreRecords ⟨[], [], [], []⟩
  decoded := ⟨[], decode_eq_ok_iff.mpr ⟨[], .nil, rfl, rfl⟩, .nil⟩
  rejected := by simp [Snapshot.empty]

/-- **The snapshot of a rewrite is a decode of its body.** -/
theorem Snapshot.Valid.remember (hS : S.Lawful) {written : Records} {snapshot : Snapshot}
    (hcached : records.Cached S)
    (hrejected : ∀ line ∈ rejected, '\n' ∉ line.text ∧ Holds S line.text (.error line))
    (hemit : emit S records (rejected.map (·.text)) = .ok (body, written))
    (h : Metadata.remember S body written rejected = some snapshot) : snapshot.Valid S := by
  obtain ⟨hrender, hpersistable, howned, hwritten⟩ := emit_eq_ok hcached hemit
  have hall := persistable_iff.mp hpersistable
  have hpersistable' : written.persistable := persistable_iff.mpr (by rwa [howned])
  obtain ⟨hcontent, hrej, hrecords, hcached'⟩ := remember_eq_some hS hwritten hpersistable' h
  obtain ⟨reread, hdecode, hreread⟩ := decode_render hS hall hrejected hrender
  refine ⟨hcached', ⟨reread, ?_, ?_⟩, by rwa [hrej]⟩
  · rw [hcontent, hdecode, hrecords, howned]
  · rw [hrej]
    exact hreread.imp fun line read hline => .inr hline

end Pohunek.Metadata
