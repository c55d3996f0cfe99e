/-
# What a text of lines decodes to

`Holds S text outcome` says what one line is for the store: a record, or a
rejected line. A file decodes exactly to the outcomes of its lines
(`decode_eq_ok_iff`), so a body put together from lines whose outcomes are
known decodes to them (`decode_unlines`). The line of a record holds the record
as it is read back (`holds_serializeLine`), a loaded record is read back as it
is (`Holds.stable`), and a rejected line stays one when a carriage return is
taken off its end (`Holds.chomp`).
-/
import Pohunek.Lib.Fallible
import Pohunek.Lib.Pointwise
import Pohunek.Metadata.Store

namespace Pohunek.Metadata

open LineLog Fallible List ParsedLine Except Option
open Notifications (isWhitespace)

def ParsedLine.text : ParsedLine → Text
  | .record text _ _ => text
  | .corrupt text _ => text

variable {S : Serde} {text content : Text} {record : Record} {line : RejectedLine}

/-! ### Schema versions -/

theorem foldl_max_le {bound : ℕ} : ∀ (versions : List ℕ) (start : ℕ),
    versions.foldl max start ≤ bound ↔ start ≤ bound ∧ ∀ version ∈ versions, version ≤ bound
  | [], start => by simp
  | version :: versions, start => by
    rw [foldl_cons, foldl_max_le versions, forall_mem_cons, max_le_iff, and_assoc]

theorem le_foldl_min {bound : ℕ} : ∀ (versions : List ℕ) (start : ℕ),
    bound ≤ versions.foldl min start ↔ bound ≤ start ∧ ∀ version ∈ versions, bound ≤ version
  | [], start => by simp
  | version :: versions, start => by
    rw [foldl_cons, le_foldl_min versions, forall_mem_cons, le_min_iff, and_assoc]

/-- A line of the current schema, or one that has none. -/
def ParsedLine.Current (line : ParsedLine) : Prop := ∀ version, line.version? = some version →
    version = storeSchemaVersion

theorem classify_current_iff {lines : List ParsedLine} :
    classify lines = .ok .current ↔ ∀ line ∈ lines, line.Current := by
  have hstart : storeSchemaVersion ≤ 2 ^ 32 - 1 := by decide
  have hiff : (∀ line ∈ lines, line.Current) ↔
      (∀ version ∈ lines.filterMap version?, version ≤ storeSchemaVersion) ∧
        ∀ version ∈ lines.filterMap version?, storeSchemaVersion ≤ version := by
    simp only [mem_filterMap, Current]
    constructor
    · intro h
      exact ⟨fun v ⟨l, hl, hv⟩ => (h l hl v hv).le, fun v ⟨l, hl, hv⟩ => (h l hl v hv).ge⟩
    · rintro ⟨hle, hge⟩ l hl v hv
      exact Nat.le_antisymm (hle v ⟨l, hl, hv⟩) (hge v ⟨l, hl, hv⟩)
  have hnewest : (lines.filterMap version?).foldl max 0 ≤ storeSchemaVersion ↔ _ := foldl_max_le _ _
  have holdest : storeSchemaVersion ≤ (lines.filterMap version?).foldl min (2 ^ 32 - 1) ↔ _ :=
    le_foldl_min _ _
  rw [hiff, classify]
  split
  · exact iff_of_false (by simp) fun h => absurd (hnewest.mpr ⟨Nat.zero_le _, h.1⟩) (by omega)
  · split
    · rename_i hold
      exact iff_of_true rfl ⟨(hnewest.mp (by omega)).2, (holdest.mp hold).2⟩
    · rename_i hold
      have hnot := fun h : ∀ version ∈ _, storeSchemaVersion ≤ version =>
        hold (holdest.mpr ⟨hstart, h⟩)
      split
      · exact iff_of_false (by simp) fun h => hnot h.2
      · exact iff_of_false (by simp) fun h => hnot h.2

/-! ### Lines -/

variable {i : ℕ}

theorem parseLine_ok_index {result : Option ParsedLine} (j : ℕ)
    (h : parseLine S i text = .ok result) : parseLine S j text = .ok result := by
  unfold parseLine at h ⊢
  split
  · rename_i hblank
    rwa [if_pos hblank] at h
  · rename_i hblank
    rw [if_neg hblank] at h
    cases hvalue : S.fromStr text with
    | error error => simpa [hvalue] using h
    | ok value =>
      simp only [hvalue] at h ⊢
      split
      · rename_i hobject
        rw [if_pos hobject] at h
        cases hversion : value.get schemaVersionKey with
        | none => simpa [hversion] using h
        | some raw =>
          simp only [hversion] at h ⊢
          cases hraw : raw.asU64.filter (· < 2 ^ 32) with
          | none =>
            rw [hraw] at h
            cases h
          | some version =>
            rw [hraw] at h
            exact h
      · rename_i hobject
        rwa [if_neg hobject] at h

/-- What a line of a store of the current schema is. -/
def Holds (S : Serde) (text : Text) (outcome : Except RejectedLine Record) : Prop :=
  ∃ line, (parseLine S 0 text = .ok (some line) ∧ line.Current) ∧ sortLine S line = outcome

theorem parseLine_blank (h : blank text) (i : ℕ) : parseLine S i text = .ok none := if_pos h

theorem parseLine_eq_none_iff : parseLine S i text = .ok none ↔ blank text := by
  refine ⟨fun h => ?_, fun h => parseLine_blank h i⟩
  by_contra hblank
  rw [parseLine, if_neg hblank] at h
  cases hvalue : S.fromStr text with
  | error error => simp [hvalue] at h
  | ok value =>
    simp only [hvalue] at h
    split at h
    · split at h
      · simp at h
      · split at h <;> simp at h
    · simp at h

/-- The lines of a text that are not blank. -/
def written (content : Text) : List Text := (lines '\n' '\r' content).filter fun text => !blank text

variable {parsed : List ParsedLine}

theorem parseFrom_ok_iff : ∀ {texts : List Text} {i : ℕ},
    parseFrom S i texts = .ok parsed ↔
      List.Forall₂ (fun text line => parseLine S 0 text = .ok (some line))
      (texts.filter fun text => !blank text) parsed := by
  intro texts
  induction texts generalizing parsed with
  | nil =>
    intro i
    simp [parseFrom, eq_comm]
  | cons text texts ih =>
    intro i
    rw [parseFrom, bind_ok_iff]
    by_cases hblank : blank text
    · have hfilter : (text :: texts).filter (fun text => !blank text) = texts.filter fun text =>
        !blank text := by
        simp [hblank]
      rw [hfilter]
      constructor
      · rintro ⟨line, hline, h⟩
        rw [parseLine_blank hblank] at hline
        obtain rfl := ok.inj hline
        obtain ⟨rest, hrest, heq⟩ := bind_ok_iff.mp h
        rw [← pure_ok_iff.mp heq]
        exact ih.mp hrest
      · intro h
        exact ⟨none, parseLine_blank hblank i, bind_ok_iff.mpr ⟨parsed, ih.mpr h, rfl⟩⟩
    · have hfilter : (text :: texts).filter (fun text => !blank text) =
          text :: texts.filter fun text => !blank text := by
        simp [hblank]
      rw [hfilter, forall₂_cons_left_iff]
      constructor
      · rintro ⟨line, hline, h⟩
        obtain ⟨rest, hrest, heq⟩ := bind_ok_iff.mp h
        cases line with
        | none => exact absurd (parseLine_eq_none_iff.mp hline) hblank
        | some line =>
          refine ⟨line, rest, parseLine_ok_index 0 hline, ih.mp hrest, ?_⟩
          rw [← pure_ok_iff.mp heq]
          rfl
      · rintro ⟨line, rest, hline, hrest, rfl⟩
        exact ⟨some line, parseLine_ok_index i hline, bind_ok_iff.mpr ⟨rest, ih.mpr hrest, rfl⟩⟩

/-! ### Files -/

theorem checkedLines_ok_iff : checkedLines S content = .ok parsed ↔
    List.Forall₂ (fun text line => parseLine S 0 text = .ok (some line) ∧ line.Current)
    (written content) parsed := by
  rw [checkedLines, bind_ok_iff, Pointwise.and_right_iff]
  constructor
  · rintro ⟨lines, hlines, h⟩
    obtain ⟨state, hstate, h⟩ := bind_ok_iff.mp h
    cases state with
    | migratable oldest => cases h
    | current =>
      obtain rfl := pure_ok_iff.mp h
      exact ⟨parseFrom_ok_iff.mp hlines, classify_current_iff.mp hstate⟩
  · rintro ⟨hlines, hcurrent⟩
    exact ⟨parsed, parseFrom_ok_iff.mpr hlines,
      bind_ok_iff.mpr ⟨.current, classify_current_iff.mpr hcurrent, rfl⟩⟩

/-- **A file decodes to the outcomes of its lines.** -/
theorem decode_eq_ok_iff {stored : StoreRecords} {rejected : List RejectedLine} :
    decode S content = .ok (stored, rejected) ↔ ∃ outcomes, List.Forall₂ (Holds S)
    (written content) outcomes ∧
      stored = .ofList (outcomes.filterMap Except.toOption) ∧
      rejected = outcomes.filterMap rejectedOf := by
  rw [decode, bind_ok_iff]
  constructor
  · rintro ⟨parsed, hparsed, h⟩
    have hlines := checkedLines_ok_iff.mp (mapError_ok_iff.mp hparsed)
    have heq := Prod.mk.inj (pure_ok_iff.mp h)
    exact ⟨parsed.map (sortLine S), Pointwise.map_iff.mpr ⟨parsed, hlines, rfl⟩, heq.1.symm,
      heq.2.symm⟩
  · rintro ⟨outcomes, houtcomes, rfl, rfl⟩
    obtain ⟨parsed, hlines, rfl⟩ := Pointwise.map_iff.mp houtcomes
    exact ⟨parsed, mapError_ok_iff.mpr (checkedLines_ok_iff.mpr hlines), rfl⟩

variable {outcome : Except RejectedLine Record}

theorem Holds.visible (h : Holds S text outcome) : blank text = false := by
  obtain ⟨line, ⟨hparse, -⟩, -⟩ := h
  rw [Bool.eq_false_iff]
  intro hblank
  rw [parseLine_blank hblank] at hparse
  cases hparse

/-- **A body of lines decodes to what its lines hold.** -/
theorem decode_unlines {texts : List Text} {outcomes : List (Except RejectedLine Record)}
    (hsep : ∀ text ∈ texts, '\n' ∉ text)
    (hholds : List.Forall₂ (fun text outcome => Holds S (chomp '\r' text) outcome) texts outcomes) :
    decode S (unlines '\n' texts) =
      .ok (.ofList (outcomes.filterMap Except.toOption), outcomes.filterMap rejectedOf) := by
  have hwritten : written (unlines '\n' texts) = texts.map (chomp '\r') := by
    rw [written, lines_unlines hsep, filter_eq_self]
    intro text htext
    obtain ⟨raw, hraw, rfl⟩ := mem_map.mp htext
    obtain ⟨outcome, -, hline⟩ := Pointwise.exists_right hholds hraw
    simpa using hline.visible
  exact decode_eq_ok_iff.mpr ⟨outcomes, by rwa [hwritten, forall₂_map_left_iff], rfl, rfl⟩

/-! ### The line of a record -/

theorem get_insertMember (key : String) (value : Value) : ∀ members : List (String × Value),
    (Value.insertMember key value members).lookup key = some value
  | [] => by simp [Value.insertMember]
  | (k, v) :: rest => by
    rw [Value.insertMember]
    split
    · simp
    · rename_i hk
      split
      · simp
      · rw [lookup_cons, beq_false_of_ne (Ne.symm hk)]
        exact get_insertMember key value rest

variable {value : Value}

theorem stampCurrentSchema_ok {stamped : Value} (h : stampCurrentSchema value = .ok stamped) :
    stamped.isObject ∧ stamped.get schemaVersionKey = some (.number storeSchemaVersion) := by
  unfold stampCurrentSchema at h
  split at h
  · obtain rfl := ok.inj h
    exact ⟨rfl, get_insertMember _ _ _⟩
  · cases h

/-- **The line of a record holds the record** as it is read back. -/
theorem holds_serializeLine (hS : S.Lawful) (hpersistable : record.persistable)
    (h : serializeLine S record = .ok text) : Holds S text (.ok record.normalised) := by
  have hvisible := (hS.oneLine h).2.1
  obtain ⟨value, hvalue, h⟩ := bind_ok_iff.mp h
  obtain ⟨stamped, hstamped, htext⟩ := bind_ok_iff.mp h
  obtain ⟨hobject, hversion⟩ := stampCurrentSchema_ok hstamped
  refine ⟨.record text stamped storeSchemaVersion, ⟨?_, ?_⟩, ?_⟩
  · rw [parseLine, if_neg (by simp [hvisible]), hS.readBack hvalue hstamped htext]
    dsimp only
    rw [if_pos hobject, hversion]
    rfl
  · exact fun version hv => (some.inj hv).symm
  · have hread := hS.roundTrip hpersistable hvalue hstamped
    simp [sortLine, hread, hpersistable, Record.normalised]

/-- What a line of the current schema that parses to a value is. -/
theorem Holds.of_value (h : Holds S text outcome)
    (hvalue : S.fromStr text = .ok value) :
    (value.isObject → value.get schemaVersionKey = some (.number storeSchemaVersion) ∧
        sortLine S (.record text value storeSchemaVersion) = outcome) ∧
      (value.isObject = false → sortLine S (.corrupt text "record is not a JSON object") =
      outcome) := by
  have hvisible := h.visible
  obtain ⟨line, ⟨hparse, hcurrent⟩, hsort⟩ := h
  rw [parseLine, if_neg (by simp [hvisible]), hvalue] at hparse
  dsimp only at hparse
  refine ⟨fun hobject => ?_, fun hobject => ?_⟩
  · rw [if_pos hobject] at hparse
    cases hversion : value.get schemaVersionKey with
    | none =>
      rw [hversion] at hparse
      cases ok.inj hparse
      exact absurd (hcurrent _ rfl) (by decide)
    | some raw =>
      rw [hversion] at hparse
      dsimp only at hparse
      cases hraw : raw.asU64.filter (· < 2 ^ 32) with
      | none =>
        rw [hraw] at hparse
        cases hparse
      | some version =>
        rw [hraw] at hparse
        cases ok.inj hparse
        obtain rfl := hcurrent version rfl
        refine ⟨?_, hsort⟩
        cases raw with
        | number n =>
          obtain ⟨hn, -⟩ := filter_eq_some_iff.mp hraw
          rw [some.inj hn]
        | _ => cases hraw
  · rw [if_neg (by simp [hobject])] at hparse
    cases ok.inj hparse
    exact hsort

theorem Holds.unique {a b : Except RejectedLine Record} (ha : Holds S text a)
    (hb : Holds S text b) : a = b := by
  obtain ⟨line, ⟨hline, -⟩, rfl⟩ := ha
  obtain ⟨line', ⟨hline', -⟩, rfl⟩ := hb
  rw [hline] at hline'
  rw [some.inj (ok.inj hline')]

/-- **A loaded record is read back as it is.** -/
theorem Holds.stable (hS : S.Lawful) (h : Holds S text (.ok record)) :
    record.persistable ∧ record.normalised = record := by
  cases hvalue : S.fromStr text with
  | error error =>
    have hvisible := h.visible
    obtain ⟨line, ⟨hparse, -⟩, hsort⟩ := h
    rw [parseLine, if_neg (by simp [hvisible]), hvalue] at hparse
    cases ok.inj hparse
    cases hsort
  | ok value =>
    cases hobject : value.isObject with
    | false => exact absurd ((h.of_value hvalue).2 hobject) (by simp [sortLine])
    | true =>
      obtain ⟨hversion, hsort⟩ := (h.of_value hvalue).1 hobject
      rw [sortLine] at hsort
      cases hread : S.fromValue value with
      | error error =>
        rw [hread] at hsort
        cases hsort
      | ok read =>
        rw [hread] at hsort
        dsimp only at hsort
        split at hsort
        · rename_i hpersistable
          obtain rfl := ok.inj hsort
          refine ⟨by simpa using hpersistable, Record.normalised_mirrored ?_⟩
          cases read with
          | session read =>
            -- the version that was checked is the one the record carries
            have hcarried := hS.version hread
            rw [hversion] at hcarried
            have : storeSchemaVersion = read.schemaVersion := by injection some.inj hcarried
            simp [Record.stamped, this]
          | resume | worktree | project => rfl
        · cases hsort

/-! ### Rejected lines -/

theorem parseLine_text {parsed : ParsedLine} (h : parseLine S i text = .ok (some parsed)) :
    parsed.text = text := by
  revert h
  fun_cases parseLine S i text <;> rintro ⟨⟩ <;> rfl

/-- A record line is rejected for its value, whatever its text. -/
theorem sortLine_record_error {version : ℕ}
    (h : sortLine S (.record text value version) = .error line) :
    line.text = text ∧ ∀ text', ∃ line', sortLine S
    (.record text' value version) = .error line' := by
  simp only [sortLine] at h ⊢
  cases hread : S.fromValue value with
  | error error =>
    rw [hread] at h
    exact ⟨by rw [← Except.error.inj h], fun text' => ⟨_, rfl⟩⟩
  | ok read =>
    rw [hread] at h
    dsimp only at h ⊢
    split at h
    · cases h
    · rename_i hpersistable
      exact ⟨by rw [← error.inj h], fun text' => ⟨_, if_neg hpersistable⟩⟩

theorem Holds.text_eq (h : Holds S text (.error line)) : line.text = text := by
  obtain ⟨parsed, ⟨hparse, -⟩, hsort⟩ := h
  rw [← parseLine_text hparse]
  cases parsed with
  | record text value version => exact (sortLine_record_error hsort).1
  | corrupt text error => rw [← Except.error.inj hsort, ParsedLine.text]

theorem holds_corrupt (hvisible : blank text = false) {error : String}
    (h : S.fromStr text = .error error) : Holds S text (sortLine S (.corrupt text error)) := by
  refine ⟨.corrupt text error, ⟨?_, fun version hv => (nomatch hv)⟩, rfl⟩
  rw [parseLine, if_neg (by simp [hvisible]), h]

theorem holds_value (hvisible : blank text = false) (h : S.fromStr text = .ok value)
    (hversion : value.isObject → value.get schemaVersionKey = some (.number storeSchemaVersion)) :
    Holds S text (sortLine S (if value.isObject then .record text value storeSchemaVersion
      else .corrupt text "record is not a JSON object")) := by
  cases hobject : value.isObject with
  | false =>
    refine ⟨.corrupt text "record is not a JSON object", ⟨?_, fun version hv => (nomatch hv)⟩, rfl⟩
    rw [parseLine, if_neg (by simp [hvisible]), h]
    dsimp only
    rw [if_neg (by simp [hobject])]
  | true =>
    refine ⟨.record text value storeSchemaVersion, ⟨?_, fun version hv => (some.inj hv).symm⟩, rfl⟩
    rw [parseLine, if_neg (by simp [hvisible]), h]
    dsimp only
    rw [if_pos hobject, hversion hobject]
    rfl

/-- **A rejected line stays one without a carriage return at its end.** -/
theorem Holds.chomp (hS : S.Lawful) (h : Holds S text (.error line)) :
    ∃ line', Holds S (chomp '\r' text) (.error line') := by
  by_cases hreturn : text.getLast? = some '\r'
  · obtain ⟨short, rfl⟩ : ∃ short, text = short ++ ['\r'] :=
      ⟨text.dropLast, (dropLast_append_getLast? _ hreturn).symm⟩
    have hvisible : blank short = false := by
      have hlong := h.visible
      have hreturnBlank : isWhitespace '\r' := by decide
      simpa [blank, hreturnBlank] using hlong
    rw [chomp_append]
    have hsame := hS.returnIgnored short
    cases hshort : S.fromStr short with
    | error error => exact ⟨_, holds_corrupt hvisible hshort⟩
    | ok value =>
      have hlong : S.fromStr (short ++ ['\r']) = .ok value := by
        rw [hshort] at hsame
        cases hlong : S.fromStr (short ++ ['\r']) with
        | error error => rw [hlong] at hsame; cases hsame
        | ok value' => rw [hlong] at hsame; rw [some.inj hsame]
      have hread := holds_value hvisible hshort fun hobject => ((h.of_value hlong).1 hobject).1
      cases hobject : value.isObject with
      | false =>
        rw [if_neg (by simp [hobject])] at hread
        exact ⟨_, hread⟩
      | true =>
        rw [if_pos hobject] at hread
        obtain ⟨line', hline'⟩ := (sortLine_record_error ((h.of_value hlong).1 hobject).2).2 short
        rw [hline'] at hread
        exact ⟨line', hread⟩
  · rw [chomp_of_getLast? hreturn]
    exact ⟨line, h⟩

end Pohunek.Metadata
