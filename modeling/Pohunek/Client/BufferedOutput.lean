/-
# The terminal output of an attach

Writers append to one queue; a poll of `drain`, `flush` or `shutdown` moves it
to the terminal. A poll runs to its end before anything else happens, and what
it did is in the queue and the offset, so a future that is dropped between two
polls leaves nothing behind (`cancel`).
-/
import Mathlib.Data.List.Basic

namespace Pohunek.Client

open List

inductive OutputError
  | writeZero
  | inner (message : String)

/-- What the terminal answers a poll: `none` while it is pending. -/
abbrev Polled (α : Type) := Option (Except OutputError α)

def outputQueueBytes : ℕ := 32 * 1024

/-- The queue, how much of it the terminal already took, and all it took. -/
structure BufferedOutput where
  accepted : List UInt8
  queue : List UInt8
  written : ℕ

namespace BufferedOutput

def new : BufferedOutput := ⟨[], [], 0⟩

/-- The terminal takes bytes from the head of the queue. -/
def take (b : BufferedOutput) (taken : ℕ) : BufferedOutput :=
  let accepted := b.accepted ++ (b.queue.drop b.written).take taken
  let written := b.written + taken
  if outputQueueBytes ≤ written then ⟨accepted, b.queue.drop written, 0⟩
    else ⟨accepted, b.queue, written⟩

/-- One poll, with the answers of the terminal to the writes it makes and to
the flush. A write takes no more than it was given. -/
def pollDrain (flush : Polled Unit) : List (Polled ℕ) → BufferedOutput →
    BufferedOutput × Polled Unit
  | answers, b =>
    if b.written < b.queue.length then
      match answers with
      | [] | none :: _ => (b, none)
      | some (.error error) :: _ => (b, some (.error error))
      | some (.ok n) :: answers =>
        let taken := min n (b.queue.length - b.written)
        if taken = 0 then (b, some (.error .writeZero)) else pollDrain flush answers (b.take taken)
    else (⟨b.accepted, [], 0⟩, flush)

def pollWrite (b : BufferedOutput) (buf : List UInt8) : BufferedOutput × Polled ℕ :=
  if buf = [] then (b, some (.ok 0))
    else ({ b with queue := b.queue ++ buf }, some (.ok buf.length))

def pollShutdown (b : BufferedOutput) (answers : List (Polled ℕ)) (flush shutdown : Polled Unit) :
    BufferedOutput × Polled Unit :=
  match b.pollDrain flush answers with
  | (b, some (.ok ())) => (b, shutdown)
  | pending => pending

end BufferedOutput

/-- What happens to an output: a write, a poll of a drain (or of `flush`, which
is the same) or of a shutdown, a drain that is dropped. -/
inductive OutputCall
  | write (buf : List UInt8)
  | drain (answers : List (Polled ℕ)) (flush : Polled Unit)
  | shutdown (answers : List (Polled ℕ)) (flush shutdown : Polled Unit)
  | cancel

def OutputCall.bytes : OutputCall → List UInt8
  | .write buf => buf
  | .drain .. | .shutdown .. | .cancel => []

namespace BufferedOutput

def call (b : BufferedOutput) : OutputCall → BufferedOutput
  | .write buf => (b.pollWrite buf).1
  | .drain answers flush => (b.pollDrain flush answers).1
  | .shutdown answers flush shutdown => (b.pollShutdown answers flush shutdown).1
  | .cancel => b

/-- The offset is in the queue, and the bytes taken and those left are `all`. -/
structure Holds (b : BufferedOutput) (all : List UInt8) : Prop where
  written : b.written ≤ b.queue.length
  bytes : b.accepted ++ b.queue.drop b.written = all

variable {b : BufferedOutput} {all : List UInt8}

theorem Holds.take (h : b.Holds all) {taken : ℕ} (htaken : taken ≤ b.queue.length - b.written) :
    (b.take taken).Holds all := by
  have hle := h.written
  have hbytes : b.accepted ++ (b.queue.drop b.written).take taken ++ b.queue.drop
    (b.written + taken) = all := by
    rw [append_assoc, ← drop_drop, take_append_drop, h.bytes]
  unfold BufferedOutput.take
  dsimp only
  split
  · exact ⟨Nat.zero_le _, hbytes⟩
  · refine ⟨?_, hbytes⟩
    dsimp only
    omega

theorem Holds.pollDrain (flush : Polled Unit) (answers : List (Polled ℕ)) (h : b.Holds all) :
    (b.pollDrain flush answers).1.Holds all := by
  fun_induction BufferedOutput.pollDrain flush answers b with
  | case1 | case2 | case3 | case4 => exact h
  | case5 b _ n _ taken _ ih => exact ih (h.take (Nat.min_le_right n _))
  | case6 _ b hall =>
    refine ⟨Nat.le_refl 0, ?_⟩
    rw [← h.bytes, drop_eq_nil_of_le (Nat.le_of_not_lt hall)]
    rfl

theorem Holds.call (h : b.Holds all) (c : OutputCall) : (b.call c).Holds (all ++ c.bytes) := by
  cases c with
  | write buf =>
    by_cases hbuf : buf = []
    · simpa [BufferedOutput.call, pollWrite, OutputCall.bytes, hbuf] using h
    · simp only [BufferedOutput.call, pollWrite, if_neg hbuf]
      refine ⟨Nat.le_trans h.written (by simp), ?_⟩
      simp [drop_append_of_le_length h.written, ← h.bytes, OutputCall.bytes]
  | drain answers flush =>
    rw [OutputCall.bytes, append_nil]
    exact h.pollDrain flush answers
  | shutdown answers flush shutdown =>
    rw [OutputCall.bytes, append_nil, BufferedOutput.call, pollShutdown]
    have hdrain := h.pollDrain flush answers
    split
    · rename_i heq
      rwa [heq] at hdrain
    · exact hdrain
  | cancel =>
    rw [OutputCall.bytes, append_nil]
    exact h

/-- **Nothing is lost, repeated or reordered.** After any calls, what the
terminal took followed by what is queued is what was written. -/
theorem accepted_append_queued (calls : List OutputCall) :
    (calls.foldl call new).accepted ++ (calls.foldl call new).queue.drop
    (calls.foldl call new).written =
      (calls.map OutputCall.bytes).flatten := by
  have hall : ∀ (calls : List OutputCall) {b : BufferedOutput} {all : List UInt8}, b.Holds all →
      (calls.foldl call b).Holds (all ++ (calls.map OutputCall.bytes).flatten) := by
    intro calls
    induction calls with
    | nil => simp
    | cons c calls ih =>
      intro b all h
      simpa using ih (h.call c)
  exact (hall calls ⟨Nat.le_refl 0, rfl⟩).bytes

end BufferedOutput
end Pohunek.Client
