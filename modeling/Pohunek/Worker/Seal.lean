/-
# The sealed terminal journal

`persist` writes the worker's journal; a committed terminal record is sealed,
and a later record passes `check_seal` only if it is the sealed one up to the
acknowledgement and the update time. Each check is against the record sealed
last: that the first one stands is by induction, `Keeps` being transitive.
-/
import Pohunek.Lib.Run

namespace Pohunek.Worker

open Runs

inductive RuntimePhase
  | bootstrap | starting | live | terminal | neverInitialized | faulted
  deriving DecidableEq

/-- The fields `check_seal` treats apart, and all the others. -/
structure JournalRecord (φ : Type) where
  phase : RuntimePhase
  updatedAt : String
  terminalAcknowledged : Bool
  rest : φ
  deriving DecidableEq

structure SealRefusal where
  attemptedPhase : RuntimePhase
  changedFields : List String

inductive WorkerError
  | protocol (message : String)
  | journal (error : String)

/-- How the write of the file ends; a writer task that fails may have
replaced the file or not. -/
inductive WriteOutcome
  | committed | committedDurabilityUncertain | failed
      (error : String) | taskFailed (replaced : Bool)

/-- The record sealed in this process, and the one on disk. -/
structure Journal (φ : Type) where
  sealed : Option (JournalRecord φ)
  stored : Option (JournalRecord φ)

variable {φ ν : Type} [DecidableEq φ] [DecidableEq ν]
    (toValue : JournalRecord φ → Option (List (String × ν)))

/-- Top-level fields in which two records serialize differently. -/
def changedFields (sealed attempted : JournalRecord φ) : List String :=
  match toValue sealed, toValue attempted with
  | some sealed, some attempted =>
    let keys := ((sealed ++ attempted).map Prod.fst).mergeSort (· ≤ ·)
    (keys.destutter (· ≠ ·)).filter fun key => sealed.lookup key != attempted.lookup key
  | _, _ => []

def Journal.seal (j : Journal φ) (record : JournalRecord φ) :
    Journal φ := { j with sealed := some record }

namespace Journal

def checkSeal (j : Journal φ) (record : JournalRecord φ) : Except SealRefusal Unit :=
  match j.sealed with
  | none => .ok ()
  | some sealed =>
    let normalized := { record with
      terminalAcknowledged := sealed.terminalAcknowledged, updatedAt := sealed.updatedAt }
    if normalized = sealed ∧
      (record.terminalAcknowledged || !sealed.terminalAcknowledged) then .ok ()
    else .error ⟨record.phase, changedFields toValue sealed record⟩

/-- `persist` of a release build (a debug build aborts where it refuses). -/
def persist (j : Journal φ) (record : JournalRecord φ) (outcome : WriteOutcome) :
    Journal φ × Except WorkerError Unit :=
  match j.checkSeal toValue record with
  | .error refusal =>
    (j, .error (.protocol ("the terminal journal is sealed; refused a write that changes " ++
      ",".intercalate refusal.changedFields)))
  | .ok () =>
    let written := { j with stored := some record }
    let committed := if record.phase = .terminal then written.seal record else written
    match outcome with
    | .committed | .committedDurabilityUncertain => (committed, .ok ())
    | .failed error => (j, .error (.journal error))
    | .taskFailed replaced =>
      (if replaced then written else j, .error (.protocol "journal writer task failed"))

/-- The state after one call. -/
def Step (j : Journal φ) (call : JournalRecord φ × WriteOutcome) (k : Journal φ) : Prop :=
  (j.persist toValue call.1 call.2).1 = k

end Journal

/-- The record differs in its update time at most, and an acknowledgement stays. -/
structure JournalRecord.Keeps (first record : JournalRecord φ) : Prop where
  phase : record.phase = first.phase
  rest : record.rest = first.rest
  acknowledged : first.terminalAcknowledged → record.terminalAcknowledged

namespace Journal

variable {toValue} {j k : Journal φ} {first sealed record : JournalRecord φ}

theorem keeps_of_checkSeal (hsealed : j.sealed = some sealed)
    (h : j.checkSeal toValue record = .ok ()) : sealed.Keeps record := by
  simp only [checkSeal, hsealed] at h
  split at h
  · rename_i hsame
    have hphase : record.phase = sealed.phase := congrArg (·.phase) hsame.1
    have hrest : record.rest = sealed.rest := congrArg (·.rest) hsame.1
    exact ⟨hphase, hrest, fun hack => by simpa [hack] using hsame.2⟩
  · cases h

/-- What holds of a journal whose first sealed record is `first`. -/
structure Final (toValue : JournalRecord φ → Option (List (String × ν))) (first : JournalRecord φ)
    (k : Journal φ) : Prop where
  sealed : ∃ sealed, k.sealed = some sealed ∧ first.Keeps sealed
  accepted : ∀ record, k.checkSeal toValue record = .ok () → first.Keeps record
  refused : ∀ record refusal outcome, k.checkSeal toValue record = .error refusal →
    (k.persist toValue record outcome).1 = k

theorem Final.of_sealed (hsealed : k.sealed = some sealed) (hkeeps : first.Keeps sealed) :
    k.Final toValue first := by
  refine ⟨⟨sealed, hsealed, hkeeps⟩, fun record hok => ?_, fun record refusal outcome herror => ?_⟩
  · have hnext := keeps_of_checkSeal hsealed hok
    exact ⟨hnext.phase.trans hkeeps.phase, hnext.rest.trans hkeeps.rest,
      hnext.acknowledged ∘ hkeeps.acknowledged⟩
  · simp [persist, herror]

theorem Final.step {call : JournalRecord φ × WriteOutcome} {l : Journal φ}
    (h : k.Final toValue first) (hstep : k.Step toValue call l) : l.Final toValue first := by
  obtain ⟨sealed, hsealed, hkeeps⟩ := h.sealed
  subst hstep
  cases hcheck : k.checkSeal toValue call.1 with
  | error refusal => rwa [h.refused _ _ _ hcheck]
  | ok =>
    have hcall := h.accepted _ hcheck
    -- The sealed record is the call's or the one before.
    have hcases : (k.persist toValue call.1 call.2).1.sealed = some call.1 ∨
        (k.persist toValue call.1 call.2).1.sealed = k.sealed := by
      unfold persist
      rw [hcheck]
      dsimp only
      split <;> (try split) <;> simp [Journal.seal]
    rcases hcases with hnew | hold
    · exact .of_sealed hnew hcall
    · exact .of_sealed (hold.trans hsealed) hkeeps

/-- **A sealed journal is final.** After any calls a record that is accepted
is the first sealed one up to its update time and a later acknowledgement,
and a refused one changes neither the seal nor the file. `first` is the
record sealed at any moment, so an acknowledgement never goes. -/
theorem sealed_journal_final {calls : List (JournalRecord φ × WriteOutcome)}
    (hfirst : j.sealed = some first) (hrun : Run (Step toValue) j calls k) :
    k.Final toValue first :=
  hrun.invariant (.of_sealed hfirst ⟨rfl, rfl, id⟩) Final.step

/-- An acknowledgement, and an attempt to take it back. -/
theorem sealed_journal_final_sample : ∃ k : Journal ℕ,
    k.sealed = some ⟨.terminal, "2", true, 7⟩ ∧ k.Final
    (fun _ => (none : Option (List (String × ℕ)))) ⟨.terminal, "1", false, 7⟩ :=
  ⟨_, by decide, sealed_journal_final (j := ⟨some ⟨.terminal, "1", false, 7⟩, none⟩) rfl (.snoc
    (.single (l := (⟨.terminal, "2", true, 7⟩, .committed)) rfl)
    (l := (⟨.terminal, "3", false, 7⟩, .committed)) rfl)⟩

end Journal
end Pohunek.Worker
