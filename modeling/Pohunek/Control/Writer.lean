/-
# The control writer

`ControlWriter` of `crates/worker-protocol/src/codec.rs`: `queue` makes a line
the pending one, `write_pending` hands the stream its next part, `write`
completes the pending line and then hands over its own. `Writing` is a writer
with the future that is in progress and what the stream accepted so far;
`lines` are the lines that were encoded, in order.

How far the pending line got is kept in the writer, so a dropped
`write_pending`, or a `write` dropped while it completes the pending line,
loses nothing. How far `write` got with its own line is kept in its future
only. While no `write` is dropped there, the stream has accepted a first part
of the lines and the rest is in the writer (`emitted_exact`); a `write`
dropped there leaves a torn line (`codec_not_exact`).
-/
import Pohunek.Control.Reader

namespace Pohunek.Control

open Runs (Run)

structure ControlWriter where
  buffer : List UInt8
  maximum : ℕ
  written : ℕ
  pending : Bool
  deriving DecidableEq

section Writer

variable {ν : Type*} (serialize : ν → Except String (List UInt8))

/-- `encode`: the line that takes the writer's buffer. -/
def encodeLine (maximum : ℕ) (v : ν) : Except ControlCodecError (List UInt8) :=
  match serialize v with
  | .error message => .error (.json message)
  | .ok bytes =>
    if maximum < bytes.length then .error (.lineTooLong bytes.length maximum)
      else .ok (bytes ++ [newline])

namespace ControlWriter

def discardPending (w : ControlWriter) :
    ControlWriter := { w with buffer := [], written := 0, pending := false }

/-- The part of the pending line the stream has not accepted. -/
def rest (w : ControlWriter) : List UInt8 := if w.pending then w.buffer.drop w.written else []

/-- `write_pending` once the stream accepted `n` bytes. -/
def accept (w : ControlWriter) (n : ℕ) : ControlWriter :=
  if w.written + n = w.buffer.length then w.discardPending else { w with written := w.written + n }

end ControlWriter

/-- The future in progress, at the write it awaits. -/
inductive WriteFuture (ν : Type*)
  | idle
  | pending
  | completing (v : ν)
  | line (rest : List UInt8)
  deriving DecidableEq

structure Writing (ν : Type*) where
  writer : ControlWriter
  future : WriteFuture ν
  emitted : List UInt8
  lines : List (List UInt8)

inductive WriteEvent (ν : Type*)
  | queue (v : ν)
  | writePending
  | write (v : ν)
  | accept (n : ℕ)
  | drop
  deriving DecidableEq

namespace Writing

def initial (maximum : ℕ) : Writing ν := ⟨⟨[], maximum, 0, false⟩, .idle, [], []⟩

variable (s : Writing ν)

/-- `write` once no line is pending: its own line goes out. -/
def start (v : ν) : Writing ν :=
  match encodeLine serialize s.writer.maximum v with
  | .error _ => { s with writer := { s.writer with buffer := [] }, future := .idle }
  | .ok line =>
    { s with
      writer := { s.writer with buffer := line }, future := .line line, lines := s.lines ++ [line] }

/-- One step; a stream that does not fail accepts at least one byte of what it
is offered. -/
def step : WriteEvent ν → Option (Writing ν)
  | .queue v =>
    match s.future with
    | .idle =>
      -- A line that is already pending stays the pending one.
      if s.writer.pending then some s
      else
        match encodeLine serialize s.writer.maximum v with
        | .error _ => some { s with writer := { s.writer with buffer := [] } }
        | .ok line =>
          some { s with
            writer := { s.writer with buffer := line, written := 0, pending := true }
            lines := s.lines ++ [line] }
    | _ => none
  | .writePending =>
    match s.future with
    | .idle => if s.writer.pending then some { s with future := .pending } else some s
    | _ => none
  | .write v =>
    match s.future with
    | .idle => if s.writer.pending then some { s with future := .completing v }
      else some (s.start serialize v)
    | _ => none
  | .accept n =>
    match s.future with
    | .idle => none
    | .pending =>
      if 0 < n && n ≤ s.writer.rest.length then
        some { s with writer := s.writer.accept n, future := .idle, emitted := s.emitted ++
          s.writer.rest.take n }
      else none
    | .completing v =>
      if 0 < n && n ≤ s.writer.rest.length then
        let s := { s with writer := s.writer.accept n, emitted := s.emitted ++ s.writer.rest.take n }
        if s.writer.pending then some s else some (s.start serialize v)
      else none
    | .line rest =>
      if 0 < n && n < rest.length then
        some { s with future := .line (rest.drop n), emitted := s.emitted ++ rest.take n }
      else if n = rest.length then
        some { s with
          writer := { s.writer with buffer := [] }, future := .idle, emitted := s.emitted ++ rest }
      else none
  | .drop =>
    match s.future with
    | .idle => none
    | _ => some { s with future := .idle }

def Step (e : WriteEvent ν) (t : Writing ν) : Prop := s.step serialize e = some t

/-- Whether the future hands over a line of its own. -/
def inOwnLine : Bool :=
  match s.future with
  | .line _ => true
  | _ => false

/-- A step that drops no `write` while its own line goes out. -/
def CarefulStep (e : WriteEvent ν) (t : Writing ν) : Prop :=
  s.Step serialize e t ∧ (e = .drop → s.inOwnLine = false)

/-- What the writer and its future still have to hand over. -/
def outstanding : List UInt8 :=
  match s.future with
  | .line rest => rest
  | _ => s.writer.rest

/-- Every byte encoded is emitted or outstanding, in order. -/
structure Exact (s : Writing ν) : Prop where
  bytes : s.lines.flatten = s.emitted ++ s.outstanding
  single : s.inOwnLine → s.writer.pending = false

variable {serialize} {s t : Writing ν} {e : WriteEvent ν}

theorem rest_accept (w : ControlWriter) (n : ℕ) : (w.accept n).rest = w.rest.drop n := by
  unfold ControlWriter.rest
  cases hpending : w.pending with
  | false =>
    unfold ControlWriter.accept
    split <;> simp [ControlWriter.discardPending, hpending]
  | true =>
    unfold ControlWriter.accept
    split
    · rename_i hall
      have hlong : w.buffer.length ≤ w.written + n := hall.ge
      simp [ControlWriter.discardPending, List.drop_eq_nil_of_le hlong]
    · simp

theorem exact_start (hbytes : s.lines.flatten = s.emitted) (hpending : s.writer.pending = false) (v : ν) :
    (s.start serialize v).Exact := by
  unfold start
  split
  · exact ⟨by simp [outstanding, ControlWriter.rest, hpending, hbytes], nofun⟩
  · exact ⟨by simp [outstanding, hbytes], fun _ => hpending⟩

theorem outstanding_of_not_line (h : s.inOwnLine = false) : s.outstanding = s.writer.rest := by
  unfold inOwnLine at h
  unfold outstanding
  split
  · rename_i hline
    simp [hline] at h
  · rfl

theorem Exact.step (hs : s.Exact) (h : s.CarefulStep serialize e t) : t.Exact := by
  obtain ⟨hstep, hdrop⟩ := h
  -- outside a line of its own, a future has the writer's rest to hand over
  have hbytes : s.inOwnLine = false → s.lines.flatten = s.emitted ++ s.writer.rest := fun hline => by
    rw [hs.bytes, outstanding_of_not_line hline]
  have hempty : s.writer.pending ≠ true → s.writer.rest = [] := fun hpending => if_neg hpending
  have hafter : ∀ n, s.inOwnLine = false →
      s.lines.flatten = s.emitted ++ s.writer.rest.take n ++ (s.writer.accept n).rest := fun n hline => by
    rw [rest_accept, List.append_assoc, List.take_append_drop, hbytes hline]
  revert hstep
  unfold Step
  fun_cases Writing.step serialize s e with
  | case1 | case6 => rintro ⟨⟩; exact hs
  | case2 v hidle hpending _ _ | case3 v hidle hpending _ _ =>
    rintro ⟨⟩
    have hflat := hbytes (by simp [inOwnLine, hidle])
    exact ⟨by simp [outstanding, hidle, ControlWriter.rest, hpending, hflat], by simp [inOwnLine, hidle]⟩
  | case5 hidle _ | case8 _ hidle _ => rintro ⟨⟩; exact ⟨hbytes (by simp [inOwnLine, hidle]), nofun⟩
  | case9 v hidle hpending =>
    rintro ⟨⟩
    have hflat := hbytes (by simp [inOwnLine, hidle])
    rw [hempty hpending, List.append_nil] at hflat
    exact exact_start hflat (Bool.eq_false_iff.mpr hpending) v
  | case12 n hpending hn => rintro ⟨⟩; exact ⟨hafter n (by simp [inOwnLine, hpending]), nofun⟩
  | case14 n v hcompleting hn s' =>
    intro hstep
    rw [← Option.some.inj hstep]
    have hflat := hafter n (by simp [inOwnLine, hcompleting])
    exact ⟨by simpa [s', outstanding, hcompleting] using hflat, by simp [s', inOwnLine, hcompleting]⟩
  | case15 n v hcompleting hn s' hdone =>
    rintro ⟨⟩
    have hflat := hafter n (by simp [inOwnLine, hcompleting])
    have hrest : (s.writer.accept n).rest = [] := if_neg hdone
    rw [hrest, List.append_nil] at hflat
    exact exact_start hflat (Bool.eq_false_iff.mpr hdone) v
  | case17 n rest hline hn =>
    rintro ⟨⟩
    have hflat := hs.bytes
    rw [outstanding, hline] at hflat
    refine ⟨?_, fun _ => hs.single (by simp [inOwnLine, hline])⟩
    show s.lines.flatten = _ ++ rest.drop n
    rw [List.append_assoc, List.take_append_drop, hflat]
  | case18 rest hline hn =>
    rintro ⟨⟩
    have hflat := hs.bytes
    rw [outstanding, hline] at hflat
    have hpending : s.writer.pending = false := hs.single (by simp [inOwnLine, hline])
    exact ⟨by simp [outstanding, ControlWriter.rest, hpending, hflat], nofun⟩
  | case21 => rintro ⟨⟩; exact ⟨hbytes (hdrop rfl), nofun⟩
  | _ => rintro ⟨⟩

/-- **The stream has accepted a first part of the lines, and the rest is in the
writer.** -/
theorem emitted_exact {maximum : ℕ} {tr : List (WriteEvent ν)}
    (h : Run (CarefulStep serialize) (initial maximum) tr s) :
    s.lines.flatten = s.emitted ++ s.outstanding :=
  (h.invariant (I := Exact) ⟨rfl, by simp [inOwnLine, initial]⟩ fun hs hstep => hs.step hstep).bytes

end Writing

/-- **The control codec is cancellation safe**, up to two things it does not
promise: a last line without its newline is a value once the stream has ended,
and a `write` must not be dropped while its own line goes out. -/
theorem control_codec_exact {τ : Type*} (serialize : ν → Except String (List UInt8))
    (decode : List UInt8 → Except String τ) (maximum : ℕ) :
    (∀ tr (s : Reading τ), Run (Reading.Step decode) (.initial maximum) tr s → ∀ text ended,
      s.Continues text ended → returned s.results <+: reference decode maximum text ended ∧
      ((∃ e, firstError s.results = some e ∧ e ≠ .io) ∨ firstError s.results = none ∧
        .endOfStream ∈ s.results → returned s.results = reference decode maximum text ended) ∧
      (firstError s.results = none → s.active → s.ended = false →
        returned s.results = reference decode maximum s.received false)) ∧
    ∀ tr (s : Writing ν), Run (Writing.CarefulStep serialize) (.initial maximum) tr s →
      s.emitted <+: s.lines.flatten ∧ s.lines.flatten = s.emitted ++ s.outstanding :=
  ⟨fun _ _ h _ _ hcont => Reading.reads_exact h hcont,
    fun _ _ h => ⟨⟨_, (Writing.emitted_exact h).symm⟩, Writing.emitted_exact h⟩⟩

end Writer

/-! Values of one digit. -/

def sampleDecode : List UInt8 → Except String UInt8
  | [b] => if 48 ≤ b ∧ b < 58 then .ok (b - 48) else .error "expected value"
  | _ => .error "expected value"

def sampleSerialize (d : UInt8) : Except String (List UInt8) := if d < 10 then .ok [48 + d]
    else .error "two digits"

/-- `CarefulStep`, computed. -/
def carefulStep (s : Writing UInt8) (e : WriteEvent UInt8) : Option (Writing UInt8) :=
  if e = .drop ∧ s.inOwnLine then none else s.step sampleSerialize e

theorem carefulStep_spec {s t : Writing UInt8} {e : WriteEvent UInt8}
    (h : carefulStep s e = some t) : s.CarefulStep sampleSerialize e t := by
  rw [carefulStep] at h
  split at h
  · cases h
  · rename_i hcareful
    exact ⟨h, fun hdrop => by simpa [hdrop] using hcareful⟩

/-- A line read in two pieces with a dropped read between them, and a queued
line whose writer is dropped after its first byte. -/
theorem control_codec_exact_sample :
    (∃ s : Reading UInt8, Run (Reading.Step sampleDecode) (.initial 8)
        [.call, .bytes [55], .drop, .call, .bytes [13, 10, 56], .call, .eof] s ∧
      returned s.results = [7, 8] ∧
      returned s.results <+: reference sampleDecode 8 [55, 13, 10, 56] true) ∧
    ∃ s : Writing UInt8, Run (Writing.CarefulStep sampleSerialize) (.initial 8)
        [.queue 7, .writePending, .accept 1, .writePending, .drop, .write 8, .accept 1, .accept 2] s ∧
      s.emitted = [55, 10, 56, 10] ∧ s.emitted <+: s.lines.flatten := by
  obtain ⟨hread, hwrite⟩ := control_codec_exact sampleSerialize sampleDecode 8
  have hr : Run (Reading.Step sampleDecode) (.initial 8)
      [.call, .bytes [55], .drop, .call, .bytes [13, 10, 56], .call, .eof] _ :=
        Runs.steps_get _ _ _ (by decide +kernel)
  have hw := (Runs.steps_get carefulStep (.initial 8)
    [.queue 7, .writePending, .accept 1, .writePending, .drop, .write 8, .accept 1, .accept 2]
    (by decide +kernel)).mono carefulStep_spec
  refine ⟨⟨_, hr, by decide +kernel, (hread _ _ hr _ _ ?_).1⟩, _, hw, by decide +kernel, (hwrite _ _ hw).1⟩
  rw [Reading.Continues, if_pos (by decide +kernel)]
  decide +kernel

/-- **Both exceptions are real**: a value is returned for a line without a
newline, and a `write` dropped after its first byte leaves that byte in front
of the next line. -/
theorem codec_not_exact :
    (∃ s : Reading UInt8, Run (Reading.Step sampleDecode) (.initial 8) [.call, .bytes [55], .eof] s ∧
      s.received = [55] ∧ returned s.results = [7] ∧ reference sampleDecode 8 [55] false = []) ∧
    ∃ s : Writing UInt8, Run (Writing.Step sampleSerialize) (.initial 8)
        [.write 7, .accept 1, .drop, .write 8, .accept 2] s ∧
      s.lines = [[55, 10], [56, 10]] ∧ s.emitted = [55, 56, 10] ∧ ¬ s.emitted <+: s.lines.flatten := by
  exact ⟨⟨_, Runs.steps_get _ _ _ (by decide +kernel), by decide +kernel⟩,
    _, Runs.steps_get _ _ _ (by decide +kernel), by decide +kernel⟩

end Pohunek.Control
