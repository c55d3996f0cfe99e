/-
# Records by table

A `Serde` for a list of records with the line of each: a record's value is its
place in the table, its text the line there. White space behind a text is
skipped, any other text is refused. Where the lines are lines and differ
(`Tabular`), this is a lawful conversion of the records of the table
(`ofTable_lawful`), and the other records do not serialise.
-/
import Mathlib.Data.List.DropRight
import Pohunek.Lib.Fallible
import Pohunek.Metadata.Store
import Pohunek.Notifications.Codec

namespace Pohunek.Metadata

open Serde
open Notifications (quote object optional)

abbrev Table := List (Record × Text)

/-- The lines of a table are visible, end in no carriage return and differ. -/
def Tabular (table : Table) : Prop :=
  (∀ row ∈ table, '\n' ∉ row.2 ∧ blank row.2 = false ∧ row.2.getLast? ≠ some '\r') ∧
    (table.map (·.2)).Nodup

instance (table : Table) : Decidable (Tabular table) := inferInstanceAs (Decidable (_ ∧ _))

/-- The value of a row, as it is stamped. -/
def rowValue (index : ℕ) : Value :=
  .object [("row", .number index), (schemaVersionKey, .number storeSchemaVersion)]

/-- The row a value names. -/
def Table.row (table : Table) (value : Value) : Option (Record × Text) := do
  let index ← (← value.get "row").asU64
  table[index]?

def Serde.ofTable (table : Table) : Serde where
  fromStr text :=
    match table.findIdx? (·.2 = text.rdropWhile (· = '\r')) with
    | some index => .ok (rowValue index)
    | none => .error "expected value"
  toText value :=
    match table.row value with
    | some row => .ok row.2
    | none => .error "not in the table"
  fromValue value :=
    match table.row value, value.get schemaVersionKey with
    | some row, some (.number version) =>
      if version = storeSchemaVersion then .ok row.1.stamped else .error "another schema"
    | _, _ => .error "missing field"
  toValue record :=
    match table.findIdx? (·.1 = record) with
    | some index => .ok (.object [("row", .number index)])
    | none => .error "not in the table"
  infoMayOwnRuntime _ := none
  contentHash text := String.ofList text

variable {table : Table}

theorem row_rowValue (index : ℕ) : table.row (rowValue index) = table[index]? := by
  simp [Table.row, rowValue, Value.get, Value.asU64]

/-- A record of the table is stamped to the value of its row. -/
theorem ofTable_stamped {record : Record} {value stamped : Value}
    (hvalue : (ofTable table).toValue record = .ok value)
    (hstamped : stampCurrentSchema value = .ok stamped) :
    ∃ index line, table[index]? = some (record, line) ∧ stamped = rowValue index := by
  simp only [ofTable] at hvalue
  split at hvalue
  · rename_i index hindex
    cases hvalue
    cases hstamped
    obtain ⟨hlt, hrecord, -⟩ := List.findIdx?_eq_some_iff_getElem.mp hindex
    refine ⟨index, table[index].2, ?_, ?_⟩
    · rw [List.getElem?_eq_getElem hlt, ← of_decide_eq_true hrecord]
    · have hkey : ("row" : String) ≠ schemaVersionKey := by decide
      have horder : ¬ schemaVersionKey < "row" := by decide
      simp [rowValue, Value.insertMember, hkey, horder]
  · cases hvalue

theorem ofTable_line {record : Record} {line : Text}
    (h : serializeLine (.ofTable table) record = .ok line) : (record, line) ∈ table := by
  obtain ⟨value, hvalue, h⟩ := Fallible.bind_ok_iff.mp h
  obtain ⟨stamped, hstamped, h⟩ := Fallible.bind_ok_iff.mp h
  obtain ⟨index, line', hrow, rfl⟩ := ofTable_stamped hvalue hstamped
  simp only [ofTable, row_rowValue, hrow] at h
  cases h
  exact List.mem_of_getElem? hrow

/-- **A table of distinct lines is a lawful conversion.** -/
theorem ofTable_lawful (h : Tabular table) : (ofTable table).Lawful where
  oneLine hline := h.1 _ (ofTable_line hline)
  readBack hvalue hstamped htext := by
    obtain ⟨index, line, hrow, rfl⟩ := ofTable_stamped hvalue hstamped
    simp only [ofTable, row_rowValue, hrow] at htext
    obtain rfl := Except.ok.inj htext
    have hends : line.rdropWhile (· = '\r') = line := by
      rw [List.rdropWhile_eq_self_iff]
      intro hne hlast
      refine (h.1 _ (List.mem_of_getElem? hrow)).2.2 ?_
      rw [List.getLast?_eq_some_getLast hne, of_decide_eq_true hlast]
    have hindex : table.findIdx? (·.2 = line) = some index := by
      obtain ⟨hlt, hget⟩ := List.getElem?_eq_some_iff.mp hrow
      rw [List.findIdx?_eq_some_iff_getElem]
      refine ⟨hlt, by simp [hget], fun j hj => ?_⟩
      intro hsame
      have hsame : table[j].2 = table[index].2 := by simpa [hget] using hsame
      have hlt' : index < (table.map (·.2)).length := by simpa using hlt
      have hmapped : (table.map (·.2))[j] = (table.map (·.2))[index] := by simpa using hsame
      exact absurd (h.2.getElem_inj_iff.mp hmapped) hj.ne
    simp only [ofTable, hends, hindex]
  roundTrip _ hvalue hstamped := by
    obtain ⟨index, line, hrow, rfl⟩ := ofTable_stamped hvalue hstamped
    have hversion : (rowValue index).get schemaVersionKey = some (.number storeSchemaVersion) := rfl
    simp only [ofTable, row_rowValue, hrow, hversion, if_true]
  version {value record} hrecord := by
    simp only [ofTable] at hrecord
    split at hrecord
    · rename_i row version hrow hversion
      split at hrecord
      · rename_i heq
        have hstamped := Except.ok.inj hrecord
        obtain ⟨wrapped, line⟩ := row
        cases wrapped with
        | session old =>
          obtain rfl := Record.session.inj hstamped
          rw [hversion, heq]
        | resume | worktree | project => cases hstamped
      · cases hrecord
    · cases hrecord
  returnIgnored text := by
    simp [ofTable]

/-! ### Records and the lines `serde_json` writes for them -/

/-- The text of an object, its members by name as `serde_json::Value` keeps them. -/
def objectText (members : List (String × Text)) (other : Other) : Text :=
  object ((members ++ other.map fun member => (member.1, member.2.toList)).insertionSort
    fun a b => a.1 ≤ b.1)

def sampleProject : ProjectRecord :=
  ⟨"/repository/.git", [("added_at", "\"2026-01-01T00:00:00Z\""), ("is_bare", "false"),
    ("last_used_at", "\"2026-01-01T00:00:00Z\""), ("repo_root", "\"/repository\""),
    ("source", "\"explicit\"")]⟩

def sampleResume : ResumeBinding :=
  ⟨"s1", .id "claude", some "native", none, .reported, [],
    [("agent", "\"claude\""), ("args", "[]"), ("cols", "80"),
    ("cwd", "\"/workspace\""), ("program", "\"\""), ("rows", "24"), ("input_rules",
    "\x7b\"bracketed_paste\":false,\"refuse_while_blocked\":false,\"restricted\":false,\"submit_delay_ms\":0\x7d")]⟩

/-- A session `s1` in a state, with a runtime of generation 1 on worker `w1`. -/
def sampleSession (state : SessionState) : SessionRecord where
  schemaVersion := storeSchemaVersion
  sessionId := "s1"
  transaction := none
  info :=
    { agentBase := .id "claude"
      activeAgentBase := none
      runtime := some ⟨1, some "w1", [("state", "\"live\"")]⟩
      state := state
      nativeSessionId := some "native"
      nativeSessionPath := none
      metadata := []
      updatedAt := "2026-01-01T00:00:00Z"
      other := [("agent", "\"claude\""),
      ("capabilities", "\x7b\"fork\":false,\"resume\":false\x7d"), ("cols", "80"),
        ("created_at", "\"2026-01-01T00:00:00Z\""), ("cwd", "\"/workspace\""), ("id", "\"s1\""),
        ("pid", "1"), ("rows", "24"), ("state_source", "\"process\"")] }
  recovery := none
  nativeIdentityOrdering := none
  runtime := ⟨some "w1", [("state", "\"live\"")]⟩
  createRequest := none
  other := [("desired_state", "\"running\"")]

/-- The session with a native identity and its marks. -/
def markedSession (sequence workerSequence : ℕ) (native : String) : SessionRecord :=
  { sampleSession .running with
    info := { (sampleSession .running).info with nativeSessionId := some native }
    nativeIdentityOrdering := some ⟨"w1", 10, 20, sequence, workerSequence⟩ }

def SessionState.asStr : SessionState → String
  | starting => "starting"
  | running => "running"
  | stopped => "stopped"
  | done => "done"
  | failed => "failed"

def number (n : ℕ) : Text := (toString n).toList

/-- The line of a record as the samples have them, without the members they leave
empty. -/
def sampleLine : Record → Text
  | .project record =>
    objectText [kind "project", version, ("git_common_dir", quote record.gitCommonDir)] record.other
  | .resume binding => objectText ([kind "resume", version, ("session_id", quote binding.sessionId),
      ("agent_base", quote "claude")] ++
      optional "native_session_id" binding.nativeSessionId) binding.other
  | .worktree binding =>
    objectText [kind "worktree", version, ("session_id", quote binding.sessionId)] binding.other
  | .session record => objectText ([kind "session", version, ("session_id", quote record.sessionId),
      ("info", objectText
      ([("agent_base", quote "claude"), ("state", quote record.info.state.asStr),
          ("updated_at", quote record.info.updatedAt)] ++
          optional "native_session_id" record.info.nativeSessionId ++
          record.info.runtime.toList.map fun runtime => ("runtime", objectText
            (("runtime_generation", quote (toString runtime.runtimeGeneration)) ::
              optional "worker_instance_id" runtime.workerInstanceId) runtime.other))
              record.info.other),
      ("runtime", objectText
      (optional "runtime_id" record.runtime.workerInstanceId) record.runtime.other)] ++
      record.nativeIdentityOrdering.toList.map fun ordering => ("native_identity_ordering", object
        ([("pid", number ordering.pid), ("pid_start_identity", number ordering.pidStartIdentity),
          ("runtime_id", quote ordering.workerInstanceId)] ++
          (ordering.sequence.toList.map fun mark => ("sequence", number mark)) ++
          ordering.workerSequence.toList.map fun mark =>
          ("worker_sequence", number mark)))) record.other
where
  kind (name : String) : String × Text := ("kind", quote name)
  version : String × Text := (schemaVersionKey, number storeSchemaVersion)

def sampleTable : Table :=
  [.resume sampleResume, .project sampleProject, .session (sampleSession .running),
    .session (sampleSession .done),
    .session (markedSession 5 3 "five"), .session (markedSession 7 3 "seven")].map fun record =>
    (record, sampleLine record)

/-- The file with the lines of these records. -/
def sampleFile (records : List Record) :
    Text := records.flatMap fun record => sampleLine record ++ ['\n']

theorem sampleTable_lawful : (ofTable sampleTable).Lawful := ofTable_lawful (by decide +kernel)

end Pohunek.Metadata
