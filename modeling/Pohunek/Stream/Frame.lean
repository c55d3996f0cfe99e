/-
# Data frames

`crates/worker-protocol/src/data.rs`: a frame is a JSON header and an opaque
payload, each behind a four-byte big-endian length. `DataFrame` carries the
checks of `DataFrame::new` as fields, so a frame that violates them cannot be
built. The JSON text of headers is a parameter (`HeaderCodec`); a header has
to be read back as it was written.

`read_frame` reads from a stream in pieces and `write_frame` writes to one
that accepts pieces (`Lib/Chunks.lean`). A list of frames is read back exactly,
however the bytes are cut into pieces, and a stream that ends inside a frame is
read up to that frame: `codec_exact`.
-/
import Pohunek.Lib.Chunks
import Pohunek.Lib.Fallible

namespace Pohunek.Stream

open List

/-! ### Frames -/

def maxDataHeaderBytes : ℕ := 256 * 1024

def maxDataPayloadBytes : ℕ := 1024 * 1024

def lengthPrefixBytes : ℕ := 4

inductive CloseReason
  | requested | runtimeExited | subscriberTooSlow | leaseReleased | observationComplete
  deriving DecidableEq

structure OutputGap where
  missingStart : ℕ
  missingEnd : ℕ
  deriving DecidableEq

/-- The kinds of frames; `φ` are the fields that no check of a frame reads. -/
inductive FrameKind (φ : Type*)
  | openStream (fields : φ)
  | attachReady (fields : φ)
  | replay (offset : ℕ)
  | observationStart (historyStartOffset startOffset nextOffset runtimeEndOffset : ℕ)
      (gap : Option OutputGap)
      (hasMore timedOut : Bool)
  | output (offset : ℕ)
  | terminalSnapshot (fields : φ)
  | gap (missingStart missingEnd watermark : ℕ)
  | input (writeId : String)
  | inputAck (writeId : String) (bytesWritten : ℕ)
  | exit (fields : φ)
  | error (fields : φ)
  | close (reason : CloseReason)
  deriving DecidableEq

structure FrameHeader (φ : Type*) where
  version : ℕ
  streamId : String
  workerInstanceId : String
  kind : FrameKind φ
  deriving DecidableEq

inductive FrameError
  | unexpectedEof
  | headerTooLarge (actual maximum : ℕ)
  | payloadTooLarge (actual maximum : ℕ)
  | invalidHeader (message : String)
  | payloadRequired
  | unexpectedPayload
  | offsetOverflow
  | invalidGap (missingStart missingEnd watermark : ℕ)
  | invalidObservationOffsets
  deriving DecidableEq

open Fallible (require)
open Chunks

section Validation

variable {φ : Type*}

/-- The checks of an observation page. -/
def observationValid (historyStart start next runtimeEnd : ℕ) (gap : Option OutputGap)
    (hasMore timedOut : Bool) : Bool :=
  let gapValid := gap.all fun gap =>
    gap.missingStart < gap.missingEnd && gap.missingEnd = historyStart && start = historyStart
  let paginationValid := hasMore == decide (next < runtimeEnd)
  let timeoutValid := !timedOut || (start = next && next = runtimeEnd)
  historyStart ≤ start && start ≤ next && next ≤ runtimeEnd && gapValid && paginationValid &&
  timeoutValid

def validatePayload (kind : FrameKind φ) (payload : List UInt8) : Except FrameError Unit :=
  match kind with
  | .replay offset | .output offset => do
    require (!payload.isEmpty) .payloadRequired
    require (offset + payload.length < 2 ^ 64) .offsetOverflow
  | .terminalSnapshot _ | .input _ => require (!payload.isEmpty) .payloadRequired
  | .gap missingStart missingEnd watermark => do
    require payload.isEmpty .unexpectedPayload
    require (missingStart < missingEnd && missingEnd ≤ watermark)
      (.invalidGap missingStart missingEnd watermark)
  | .observationStart historyStart start next runtimeEnd gap hasMore timedOut => do
    require payload.isEmpty .unexpectedPayload
    require (observationValid historyStart start next runtimeEnd gap hasMore timedOut)
      .invalidObservationOffsets
  | .openStream _ | .attachReady _ | .inputAck .. | .exit _ | .error _ | .close _ =>
    require payload.isEmpty .unexpectedPayload

end Validation

/-- A frame that passed its checks. -/
structure DataFrame (φ : Type*) where
  header : FrameHeader φ
  payload : List UInt8
  valid : validatePayload header.kind payload = .ok ()
  bounded : payload.length ≤ maxDataPayloadBytes

variable {φ : Type*}

def DataFrame.new (header : FrameHeader φ) (payload : List UInt8) :
    Except FrameError (DataFrame φ) :=
  match hvalid : validatePayload header.kind payload with
  | .error e => .error e
  | .ok () =>
    if hbounded : payload.length ≤ maxDataPayloadBytes then .ok ⟨header, payload, hvalid, hbounded⟩
    else .error (.payloadTooLarge payload.length maxDataPayloadBytes)

theorem DataFrame.new_eq (f : DataFrame φ) : DataFrame.new f.header f.payload = .ok f := by
  unfold DataFrame.new
  split
  · rename_i e he
    cases he.symm.trans f.valid
  · rw [dif_pos f.bounded]

/-! ### Lengths -/

/-- `u32::to_be_bytes`. -/
def toBeBytes (n : ℕ) :
    List UInt8 := [n / 2 ^ 24, n / 2 ^ 16, n / 2 ^ 8, n].map fun d => UInt8.ofNat (d % 256)

/-- `u32::from_be_bytes`. -/
def fromBeBytes (bytes : List UInt8) : ℕ := bytes.foldl (fun n b => n * 256 + b.toNat) 0

@[simp] theorem length_toBeBytes (n : ℕ) : (toBeBytes n).length = lengthPrefixBytes := rfl

theorem fromBeBytes_toBeBytes {n : ℕ} (h : n < 2 ^ 32) : fromBeBytes (toBeBytes n) = n := by
  have hdigit : ∀ d : ℕ, (UInt8.ofNat (d % 256)).toNat = d % 256 := fun d => by simp
  simp only [fromBeBytes, toBeBytes, map_cons, map_nil, foldl_cons, foldl_nil, hdigit]
  omega

/-! ### Writing and reading -/

/-- The JSON text of frame headers. -/
structure HeaderCodec (φ : Type*) where
  encode : FrameHeader φ → Except String (List UInt8)
  decode : List UInt8 → Except String (FrameHeader φ)

/-- A header is read back as it was written. -/
def HeaderCodec.RoundTrips (codec : HeaderCodec φ) : Prop :=
  ∀ header bytes, codec.encode header = .ok bytes → codec.decode bytes = .ok header

section Codec

variable {φ : Type*} (codec : HeaderCodec φ)

def writeLength (sizes : List ℕ) (length : ℕ) : Except FrameError (List (List UInt8)) :=
  if length < 2 ^ 32 then .ok (accepted sizes (toBeBytes length))
  else .error (.payloadTooLarge length (2 ^ 32 - 1))

/-- What one `write_frame` hands to the stream, piece by piece: `a` and `b` are
the sizes the stream accepts of the header and its length, `c` and `d` of the
payload and its length. -/
def writeFrame (a b c d : List ℕ) (f : DataFrame φ) : Except FrameError (List (List UInt8)) := do
  validatePayload f.header.kind f.payload
  let header ← (codec.encode f.header).mapError .invalidHeader
  require (header.length ≤ maxDataHeaderBytes) (.headerTooLarge header.length maxDataHeaderBytes)
  require (f.payload.length ≤ maxDataPayloadBytes)
    (.payloadTooLarge f.payload.length maxDataPayloadBytes)
  let headerLength ← writeLength a header.length
  let payloadLength ← writeLength c f.payload.length
  pure (headerLength ++ accepted b header ++ payloadLength ++ accepted d f.payload)

variable (stream : List (List UInt8))

/-- A length, `none` at the end of the stream. -/
def readLength : Except FrameError (Option ℕ) × List (List UInt8) :=
  let (bytes, rest) := fill lengthPrefixBytes stream
  if bytes.isEmpty then (.ok none, rest)
  else if bytes.length < lengthPrefixBytes then (.error .unexpectedEof, rest)
  else (.ok (some (fromBeBytes bytes)), rest)

def readRequiredLength : Except FrameError ℕ × List (List UInt8) :=
  match readLength stream with
  | (.ok (some n), rest) => (.ok n, rest)
  | (.ok none, rest) => (.error .unexpectedEof, rest)
  | (.error e, rest) => (.error e, rest)

def readExactFrame (n : ℕ) (stream : List (List UInt8)) :
    Except FrameError (List UInt8) × List (List UInt8) :=
  let (bytes, rest) := fill n stream
  if bytes.length < n then (.error .unexpectedEof, rest) else (.ok bytes, rest)

/-- The payload behind a header. -/
def readPayload (header : FrameHeader φ) (stream : List (List UInt8)) :
    Except FrameError (Option (DataFrame φ)) × List (List UInt8) :=
  match readRequiredLength stream with
  | (.error e, rest) => (.error e, rest)
  | (.ok payloadLength, rest) =>
    if maxDataPayloadBytes < payloadLength then
      (.error (.payloadTooLarge payloadLength maxDataPayloadBytes), rest)
    else
      match readExactFrame payloadLength rest with
      | (.error e, rest) => (.error e, rest)
      | (.ok payload, rest) => ((DataFrame.new header payload).map some, rest)

def readFrame : Except FrameError (Option (DataFrame φ)) × List (List UInt8) :=
  match readLength stream with
  | (.error e, rest) => (.error e, rest)
  | (.ok none, rest) => (.ok none, rest)
  | (.ok (some headerLength), rest) =>
    if maxDataHeaderBytes < headerLength then
      (.error (.headerTooLarge headerLength maxDataHeaderBytes), rest)
    else
      match readExactFrame headerLength rest with
      | (.error e, rest) => (.error e, rest)
      | (.ok bytes, rest) =>
        match codec.decode bytes with
        | .error e => (.error (.invalidHeader e), rest)
        | .ok header => readPayload header rest

/-- How a stream of frames ends for its reader. -/
inductive Ending
  | endOfStream
  | failed (error : FrameError)
  | unread
  deriving DecidableEq

/-- Frames read one after the other until the stream ends or fails, at most
`fuel` of them. -/
def readFrames : ℕ → List (List UInt8) → List (DataFrame φ) × Ending
  | 0, _ => ([], .unread)
  | fuel + 1, stream =>
    match readFrame codec stream with
    | (.ok none, _) => ([], .endOfStream)
    | (.error e, _) => ([], .failed e)
    | (.ok (some f), rest) => (f :: (readFrames fuel rest).1, (readFrames fuel rest).2)

/-- The whole stream. Every frame takes at least one byte, so the fuel never
runs out (`codec_exact`). -/
def readStream : List (DataFrame φ) × Ending :=
  readFrames codec (stream.flatten.length + 1) stream

variable {codec}

/-! ### What the reads answer

Each read is settled by the bytes of the stream alone. -/

variable {stream : List (List UInt8)} {tail : List UInt8}

theorem readLength_of_prefix {n : ℕ} (hn : n < 2 ^ 32)
    (h : stream.flatten = toBeBytes n ++ tail) : ∃ rest, readLength stream = (.ok (some n), rest) ∧
    rest.flatten = tail := by
  obtain ⟨rest, hfill, hrest⟩ := fill_of_prefix h
  refine ⟨rest, ?_, hrest⟩
  rw [readLength, ← length_toBeBytes n, hfill]
  dsimp only
  rw [if_neg (by simp [toBeBytes]), length_toBeBytes, if_neg (Nat.lt_irrefl _),
    fromBeBytes_toBeBytes hn]

theorem readLength_of_nil (h : stream.flatten = []) :
    ∃ rest, readLength stream = (.ok none, rest) := by
  have hle : stream.flatten.length ≤ lengthPrefixBytes := by rw [h]; exact Nat.zero_le _
  obtain ⟨rest, hfill⟩ := fill_of_le hle
  exact ⟨rest, by rw [readLength, hfill, h]; rfl⟩

theorem readLength_of_cut (h0 : stream.flatten ≠ [])
    (h : stream.flatten.length < lengthPrefixBytes) :
    ∃ rest, readLength stream = (.error .unexpectedEof, rest) := by
  obtain ⟨rest, hfill⟩ := fill_of_le h.le
  refine ⟨rest, ?_⟩
  rw [readLength, hfill]
  dsimp only
  rw [if_neg (by simpa using h0), if_pos h]

theorem readRequiredLength_of_cut (h : stream.flatten.length < lengthPrefixBytes) :
    ∃ rest, readRequiredLength stream = (.error .unexpectedEof, rest) := by
  by_cases h0 : stream.flatten = []
  · obtain ⟨rest, hread⟩ := readLength_of_nil h0
    exact ⟨rest, by rw [readRequiredLength, hread]⟩
  · obtain ⟨rest, hread⟩ := readLength_of_cut h0 h
    exact ⟨rest, by rw [readRequiredLength, hread]⟩

variable {bytes : List UInt8}

theorem readExactFrame_of_prefix (h : stream.flatten = bytes ++ tail) :
    ∃ rest, readExactFrame bytes.length stream = (.ok bytes, rest) ∧ rest.flatten = tail := by
  obtain ⟨rest, hfill, hrest⟩ := fill_of_prefix h
  refine ⟨rest, ?_, hrest⟩
  rw [readExactFrame, hfill]
  dsimp only
  rw [if_neg (Nat.lt_irrefl _)]

theorem readExactFrame_of_cut {n : ℕ} (h : stream.flatten.length < n) :
    ∃ rest, readExactFrame n stream = (.error .unexpectedEof, rest) := by
  obtain ⟨rest, hfill⟩ := fill_of_le h.le
  refine ⟨rest, ?_⟩
  rw [readExactFrame, hfill]
  dsimp only
  rw [if_pos h]

/-! ### One frame -/

/-- The bytes of a frame with this header text. -/
def frameBytes (header payload : List UInt8) : List UInt8 :=
  toBeBytes header.length ++ (header ++ (toBeBytes payload.length ++ payload))

/-- The frame has these bytes. -/
def Encodes (codec : HeaderCodec φ) (f : DataFrame φ) (bytes : List UInt8) : Prop :=
  ∃ header, codec.encode f.header = .ok header ∧ header.length ≤ maxDataHeaderBytes ∧
    bytes = frameBytes header f.payload

variable {f : DataFrame φ} {pieces : List (List UInt8)}

theorem encodes_of_writeFrame {a b c d : List ℕ}
    (h : writeFrame codec a b c d f = .ok pieces) : Encodes codec f pieces.flatten := by
  simp only [writeFrame, Fallible.bind_ok_iff, Fallible.require_ok_iff, Fallible.mapError_ok_iff,
    Fallible.pure_ok_iff, decide_eq_true_eq] at h
  obtain ⟨_, -, header, hheader, _, hlength, _, -, headerLength, ha, payloadLength, hc, rfl⟩ := h
  refine ⟨header, hheader, hlength, ?_⟩
  have hwritten : ∀ {sizes : List ℕ} {n : ℕ} {written : List (List UInt8)},
      writeLength sizes n = .ok written → written.flatten = toBeBytes n := by
    intro sizes n written hw
    rw [writeLength] at hw
    split at hw
    · cases hw
      exact accepted_flatten _ _
    · cases hw
  simp [frameBytes, flatten_append, hwritten ha, hwritten hc, accepted_flatten]

theorem Encodes.length_pos (h : Encodes codec f bytes) : 0 < bytes.length := by
  obtain ⟨header, -, -, rfl⟩ := h
  simp [frameBytes, lengthPrefixBytes]

theorem header_lt {header : List UInt8} (h : header.length ≤ maxDataHeaderBytes) :
    header.length < 2 ^ 32 := by
  unfold maxDataHeaderBytes at h
  omega

theorem DataFrame.payload_lt (f : DataFrame φ) : f.payload.length < 2 ^ 32 := by
  have h := f.bounded
  unfold maxDataPayloadBytes at h
  omega

theorem readPayload_of_prefix (f : DataFrame φ)
    (h : stream.flatten = toBeBytes f.payload.length ++ (f.payload ++ tail)) :
    ∃ rest, readPayload f.header stream = (.ok (some f), rest) ∧ rest.flatten = tail := by
  obtain ⟨rest, hlength, hrest⟩ := readLength_of_prefix f.payload_lt h
  obtain ⟨rest', hexact, hrest'⟩ := readExactFrame_of_prefix hrest
  refine ⟨rest', ?_, hrest'⟩
  rw [readPayload, readRequiredLength, hlength]
  dsimp only
  rw [if_neg (Nat.not_lt.mpr f.bounded), hexact]
  dsimp only
  rw [f.new_eq]
  rfl

variable {missing : List UInt8}

theorem readPayload_of_cut (f : DataFrame φ) (hmissing : missing ≠ [])
    (h : stream.flatten ++ missing = toBeBytes f.payload.length ++ f.payload) :
    ∃ rest, readPayload f.header stream = (.error .unexpectedEof, rest) := by
  have hpos : 0 < missing.length := length_pos_iff.mpr hmissing
  by_cases hshort : stream.flatten.length < lengthPrefixBytes
  · obtain ⟨rest, hread⟩ := readRequiredLength_of_cut hshort
    exact ⟨rest, by rw [readPayload, hread]⟩
  · obtain ⟨part, hpart, hrest⟩ := exists_of_cut h (by rw [length_toBeBytes]; omega)
    obtain ⟨rest, hlength, hflat⟩ := readLength_of_prefix f.payload_lt hpart
    have hcut : rest.flatten.length < f.payload.length := by
      rw [hflat, ← hrest, length_append]
      omega
    obtain ⟨rest', hexact⟩ := readExactFrame_of_cut hcut
    refine ⟨rest', ?_⟩
    rw [readPayload, readRequiredLength, hlength]
    dsimp only
    rw [if_neg (Nat.not_lt.mpr f.bounded), hexact]

theorem readFrame_of_prefix (hcodec : codec.RoundTrips) (hf : Encodes codec f bytes)
    (h : stream.flatten = bytes ++ tail) :
    ∃ rest, readFrame codec stream = (.ok (some f), rest) ∧ rest.flatten = tail := by
  obtain ⟨header, hencode, hlength, rfl⟩ := hf
  simp only [frameBytes, append_assoc] at h
  obtain ⟨rest, hread, hrest⟩ := readLength_of_prefix (header_lt hlength) h
  obtain ⟨rest', hexact, hrest'⟩ := readExactFrame_of_prefix hrest
  obtain ⟨rest'', hpayload, hrest''⟩ := readPayload_of_prefix f hrest'
  refine ⟨rest'', ?_, hrest''⟩
  rw [readFrame, hread]
  dsimp only
  rw [if_neg (Nat.not_lt.mpr hlength), hexact]
  dsimp only
  rw [hcodec _ _ hencode]
  exact hpayload

/-- A stream that ends inside a frame: wherever the cut is, the next read meets
the end. -/
theorem readFrame_of_cut (hcodec : codec.RoundTrips) (hf : Encodes codec f bytes)
    (hstream : stream.flatten ≠ []) (hmissing : missing ≠ [])
    (h : stream.flatten ++ missing = bytes) :
    ∃ rest, readFrame codec stream = (.error .unexpectedEof, rest) := by
  obtain ⟨header, hencode, hlength, rfl⟩ := hf
  by_cases hshort : stream.flatten.length < lengthPrefixBytes
  · obtain ⟨rest, hread⟩ := readLength_of_cut hstream hshort
    exact ⟨rest, by rw [readFrame, hread]⟩
  · obtain ⟨part, hpart, hafter⟩ := exists_of_cut h (by rw [length_toBeBytes]; omega)
    obtain ⟨rest, hread, hrest⟩ := readLength_of_prefix (header_lt hlength) hpart
    by_cases hheader : part.length < header.length
    · have hlt : rest.flatten.length < header.length := by rwa [hrest]
      obtain ⟨rest', hexact⟩ := readExactFrame_of_cut hlt
      refine ⟨rest', ?_⟩
      rw [readFrame, hread]
      dsimp only
      rw [if_neg (Nat.not_lt.mpr hlength), hexact]
    · obtain ⟨part', hpart', hafter'⟩ := exists_of_cut hafter (by omega)
      obtain ⟨rest', hexact, hrest'⟩ := readExactFrame_of_prefix (hrest.trans hpart')
      rw [← hrest'] at hafter'
      obtain ⟨rest'', hpayload⟩ := readPayload_of_cut f hmissing hafter'
      refine ⟨rest'', ?_⟩
      rw [readFrame, hread]
      dsimp only
      rw [if_neg (Nat.not_lt.mpr hlength), hexact]
      dsimp only
      rw [hcodec _ _ hencode]
      exact hpayload

theorem readFrame_of_nil (h : stream.flatten = []) :
    ∃ rest, readFrame codec stream = (.ok none, rest) := by
  obtain ⟨rest, hread⟩ := readLength_of_nil h
  exact ⟨rest, by rw [readFrame, hread]⟩

/-! ### A stream of frames -/

/-- The frame was written, in these pieces. -/
def Wrote (codec : HeaderCodec φ) (f : DataFrame φ) (pieces : List (List UInt8)) : Prop :=
  ∃ a b c d, writeFrame codec a b c d f = .ok pieces

theorem Wrote.encodes (h : Wrote codec f pieces) :
    Encodes codec f pieces.flatten := by
  obtain ⟨a, b, c, d, hw⟩ := h
  exact encodes_of_writeFrame hw

/-- The bytes on the stream after frames were written. -/
def onStream (written : List (DataFrame φ × List (List UInt8))) :
    List UInt8 := (written.flatMap (·.2)).flatten

theorem onStream_cons (w : DataFrame φ × List (List UInt8))
    (written : List (DataFrame φ × List (List UInt8))) :
    onStream (w :: written) = w.2.flatten ++ onStream written := by
  simp [onStream]

/-- Whole frames are read one by one, and what is behind them is left. -/
theorem readFrames_of_prefix (hcodec : codec.RoundTrips) (fuel : ℕ) :
    ∀ (written : List (DataFrame φ × List (List UInt8))), (∀ w ∈ written, Wrote codec w.1 w.2) →
    ∀ {stream : List (List UInt8)}, stream.flatten = onStream written ++ tail →
    ∃ rest, rest.flatten = tail ∧ readFrames codec (written.length + fuel) stream =
      (written.map (·.1) ++ (readFrames codec fuel rest).1, (readFrames codec fuel rest).2)
  | [], _, stream, h => ⟨stream, h, by simp⟩
  | w :: written, hwritten, stream, h => by
    rw [onStream_cons, append_assoc] at h
    obtain ⟨rest, hread, hrest⟩ := readFrame_of_prefix hcodec (hwritten w mem_cons_self).encodes h
    obtain ⟨rest', hrest', hmore⟩ := readFrames_of_prefix hcodec fuel written
      (fun x hx => hwritten x (mem_cons_of_mem _ hx)) hrest
    refine ⟨rest', hrest', ?_⟩
    rw [length_cons, Nat.add_right_comm, readFrames, hread]
    dsimp only
    rw [hmore]
    rfl

theorem length_le_onStream : ∀ {written : List (DataFrame φ × List (List UInt8))},
    (∀ w ∈ written, Wrote codec w.1 w.2) → written.length ≤ (onStream written).length
  | [], _ => Nat.zero_le _
  | w :: written, h => by
    have hpos := (h w mem_cons_self).encodes.length_pos
    have hrest : ∀ x ∈ written, Wrote codec x.1 x.2 := fun x hx => h x (mem_cons_of_mem _ hx)
    have ih := length_le_onStream hrest
    rw [onStream_cons, length_append, length_cons]
    omega

variable {written : List (DataFrame φ × List (List UInt8))}

section

variable (hcodec : codec.RoundTrips)
include hcodec

theorem readStream_of_prefix (hwritten : ∀ w ∈ written, Wrote codec w.1 w.2)
    (h : stream.flatten = onStream written ++ tail) : ∃ fuel rest, rest.flatten = tail ∧
      readStream codec stream = (written.map (·.1) ++ (readFrames codec (fuel + 1) rest).1,
        (readFrames codec (fuel + 1) rest).2) := by
  have hle := length_le_onStream hwritten
  let fuel := (onStream written).length - written.length + tail.length
  obtain ⟨rest, hrest, hread⟩ := readFrames_of_prefix hcodec (fuel + 1) written hwritten h
  refine ⟨fuel, rest, hrest, ?_⟩
  rw [readStream, h, length_append, ← hread]
  congr 1
  omega

theorem readStream_exact (hwritten : ∀ w ∈ written, Wrote codec w.1 w.2)
    (h : stream.flatten = onStream written) :
    readStream codec stream = (written.map (·.1), .endOfStream) := by
  obtain ⟨fuel, rest, hrest, hread⟩ :=
    readStream_of_prefix hcodec hwritten (h.trans (append_nil _).symm)
  obtain ⟨rest', hend⟩ : ∃ rest', readFrame codec rest = (.ok none, rest') := readFrame_of_nil hrest
  rw [hread, readFrames, hend, append_nil]

theorem readStream_cut (hwritten : ∀ w ∈ written, Wrote codec w.1 w.2)
    (hf : Wrote codec f pieces) {part : List UInt8} (hpart : part ≠ []) (hmissing : missing ≠ [])
    (hcut : part ++ missing = pieces.flatten) (h : stream.flatten = onStream written ++ part) :
    readStream codec stream = (written.map (·.1), .failed .unexpectedEof) := by
  obtain ⟨fuel, rest, hrest, hread⟩ := readStream_of_prefix hcodec hwritten h
  rw [← hrest] at hpart hcut
  obtain ⟨rest', hend⟩ := readFrame_of_cut hcodec hf.encodes hpart hmissing hcut
  rw [hread, readFrames, hend, append_nil]

/-- No frame starts with another one: reading the longer text gives both. -/
theorem eq_of_prefix {g : DataFrame φ} {pieces' : List (List UInt8)}
    (hf : Wrote codec f pieces) (hg : Wrote codec g pieces')
    (h : pieces.flatten <+: pieces'.flatten) : f = g := by
  obtain ⟨tail, htail⟩ := h
  obtain ⟨_, hread, -⟩ := readFrame_of_prefix hcodec hf.encodes htail.symm
  have hall : pieces'.flatten = pieces'.flatten ++ [] := (append_nil _).symm
  obtain ⟨_, hread', -⟩ := readFrame_of_prefix hcodec hg.encodes hall
  have heq := congrArg Prod.fst (hread.symm.trans hread')
  exact Option.some.inj (Except.ok.inj heq)

end

/-- **The data codec is exact.** Frames written in any pieces and read in any
pieces are read back, then the end; a stream cut inside a frame is read up to
that frame, then fails; no frame's bytes start with those of another, and no
two lists of frames have the same bytes. -/
theorem codec_exact (hcodec : codec.RoundTrips) {written : List (DataFrame φ × List (List UInt8))}
    (hwritten : ∀ w ∈ written, Wrote codec w.1 w.2) :
    (∀ stream : List (List UInt8), stream.flatten = onStream written →
      readStream codec stream = (written.map (·.1), .endOfStream)) ∧
    (∀ f pieces, Wrote codec f pieces → ∀ part missing, part ≠ [] → missing ≠ [] →
      part ++ missing = pieces.flatten →
      ∀ stream : List (List UInt8), stream.flatten = onStream written ++ part →
        readStream codec stream = (written.map (·.1), .failed .unexpectedEof)) ∧
    (∀ written', (∀ w ∈ written', Wrote codec w.1 w.2) → onStream written' = onStream written →
      written'.map (·.1) = written.map (·.1)) ∧
    ∀ f g pieces pieces', Wrote codec f pieces → Wrote codec g pieces' →
    pieces.flatten <+: pieces'.flatten → f = g := by
  refine ⟨fun stream h => readStream_exact hcodec hwritten h,
    fun f pieces hf part missing hpart hmissing hcut stream h =>
      readStream_cut hcodec hwritten hf hpart hmissing hcut h, fun written' hwritten' heq => ?_,
    fun f g pieces pieces' hf hg h => eq_of_prefix hcodec hf hg h⟩
  have hone : [onStream written].flatten = onStream written := append_nil _
  have hread := readStream_exact hcodec hwritten hone
  have hread' := readStream_exact hcodec hwritten' (hone.trans heq.symm)
  exact (Prod.mk.inj (hread'.symm.trans hread)).1

end Codec

/-! An output frame and its text, written in pieces. -/

def sampleHeader : FrameHeader Unit := ⟨6, "stream-1", "runtime-1", .output 7⟩

def sampleFrame : DataFrame Unit := ⟨sampleHeader, [104, 105], by decide, by decide⟩

def sampleText : List UInt8 :=
  "\x7b\"version\":6,\"stream_id\":\"stream-1\",\"runtime_id\":\"runtime-1\",\"kind\":\"output\",\"offset\":7\x7d".toList.map
    (·.toNat.toUInt8)

def sampleCodec : HeaderCodec Unit where
  encode header := if header = sampleHeader then .ok sampleText else .error "not the sample"
  decode bytes := if bytes = sampleText then .ok sampleHeader else .error "not the sample"

theorem sampleCodec_roundTrips : sampleCodec.RoundTrips := by
  intro header bytes h
  simp only [sampleCodec] at h ⊢
  split at h
  · rename_i heq
    cases h
    rw [if_pos rfl, heq]
  · cases h

/-- Two frames and the start of a third are on the stream, cut into a piece of
five bytes and the rest. -/
theorem codec_exact_sample : ∃ pieces, Wrote sampleCodec sampleFrame pieces ∧
    (let bytes := pieces.flatten ++ pieces.flatten
     readStream sampleCodec [bytes.take 5, bytes.drop 5] =
     ([sampleFrame, sampleFrame], .endOfStream) ∧
     readStream sampleCodec [bytes.take 5, bytes.drop 5 ++ pieces.flatten.take 9] =
       ([sampleFrame, sampleFrame], .failed .unexpectedEof)) := by
  have hwrote : Wrote sampleCodec sampleFrame [[0, 0], [0, 88], sampleText, [0, 0, 0, 2],
    [104, 105]] :=
    ⟨[1], [], [], [], by decide +kernel⟩
  refine ⟨_, hwrote, ?_⟩
  have hboth : ∀ w ∈ replicate 2 (sampleFrame,
    [[0, 0], [0, 88], sampleText, [0, 0, 0, 2], [104, 105]]),
      Wrote sampleCodec w.1 w.2 := fun w hw => eq_of_mem_replicate hw ▸ hwrote
  have hexact := codec_exact sampleCodec_roundTrips hboth
  exact ⟨hexact.1 _ rfl,
    hexact.2.1 _ _ hwrote (take 9 _) (drop 9 _) (by decide +kernel) (by decide +kernel)
    (take_append_drop _ _) _ rfl⟩

end Pohunek.Stream
