/-
# The terminal behind the hub

`TerminalTracker` of `crates/terminal/src/snapshot.rs` as the output hub uses
it. The `vt100` screen and the OSC scanner are an arbitrary `TerminalModel`:
some state that is fed bytes, resized and read. What the source builds from
the readings, the snapshot with its ANSI repaint, is `TerminalModel.snapshot`.
The answer to OSC 7501 probes (`ProbeGuard`, `ProbeReplies`) is here too,
because `OutputHub::push` queues the replies.
-/
import Mathlib.Tactic

namespace Pohunek.Output

/-- Byte span of one probe in the output stream, `stop` exclusive. -/
structure ProbeSpan where
  start : ℕ
  stop : ℕ
  deriving DecidableEq

structure ProbeGuard where
  lastEnd : Option ℕ := none
  suppress : Bool := false
  deriving DecidableEq

/-- Whether `span` is answered. -/
def ProbeGuard.admit (g : ProbeGuard) (span : ProbeSpan) : ProbeGuard × Bool :=
  let suppress := if g.lastEnd ≠ some span.start then false else g.suppress
  if suppress then (⟨some span.stop, true⟩, false) else (⟨some span.stop, true⟩, true)

/-- The one-slot queue of pending replies. -/
structure ProbeReplies where
  pending : Bool := false
  closed : Bool := false
  deriving DecidableEq

structure ProbeResponder where
  guard : ProbeGuard := {}
  replies : ProbeReplies := {}
  deriving DecidableEq

/-- The loop of `OutputHub::push` over the probes of one push. -/
def ProbeResponder.answer : ProbeResponder → List ProbeSpan → ProbeResponder
  | r, [] => r
  | r, span :: spans =>
    let (guard, admitted) := r.guard.admit span
    answer ⟨guard, if admitted then { r.replies with pending := true } else r.replies⟩ spans

/-- What `vt100` and the OSC scanner report about the screen. -/
structure Screen where
  rows : UInt16
  cols : UInt16
  cursorRow : UInt16
  cursorCol : UInt16
  hideCursor : Bool
  alternateScreen : Bool
  title : Option String
  progress : Option String
  contents : String
  inputModeFormatted : List UInt8
  contentsFormatted : List UInt8
  cursorStateFormatted : List UInt8
  deriving DecidableEq

structure TerminalSnapshot where
  watermark : ℕ
  rows : UInt16
  cols : UInt16
  cursorRow : UInt16
  cursorCol : UInt16
  cursorVisible : Bool
  alternateScreen : Bool
  title : Option String
  progress : Option String
  visibleText : String
  ansi : List UInt8
  deriving DecidableEq

/-- The tracker: any state that takes bytes and sizes and can be read. -/
structure TerminalModel (τ : Type) where
  new : UInt16 → UInt16 → τ
  feed : τ → List UInt8 → τ
  takeProbes : τ → List ProbeSpan × τ
  resize : τ → UInt16 → UInt16 → τ
  screen : τ → Screen

namespace TerminalModel

variable {τ : Type} (M : TerminalModel τ)

/-- `ESC [ ? 1049 h`: enter the alternate screen. -/
def enterAlternate : List UInt8 := [0x1b, 0x5b, 0x3f, 0x31, 0x30, 0x34, 0x39, 0x68]

/-- `ESC [ 2 J ESC [ H`: clear and go home. -/
def clearHome : List UInt8 := [0x1b, 0x5b, 0x32, 0x4a, 0x1b, 0x5b, 0x48]

/-- `TerminalTracker::snapshot`. -/
def snapshot (t : τ) (watermark : ℕ) : TerminalSnapshot :=
  let screen := M.screen t
  { watermark := watermark
    rows := screen.rows
    cols := screen.cols
    cursorRow := screen.cursorRow
    cursorCol := screen.cursorCol
    cursorVisible := !screen.hideCursor
    alternateScreen := screen.alternateScreen
    title := screen.title
    progress := screen.progress
    visibleText := screen.contents
    ansi := (if screen.alternateScreen then enterAlternate else []) ++ clearHome ++
      screen.inputModeFormatted ++ screen.contentsFormatted ++ screen.cursorStateFormatted }

/-- A repaint always has bytes: it starts by clearing the screen. -/
theorem snapshot_ansi_ne (t : τ) (w : ℕ) : (M.snapshot t w).ansi ≠ [] := by
  simp [snapshot, clearHome]

end TerminalModel

/-- A terminal that shows an empty screen whatever it is fed. -/
def blankTerminal : TerminalModel (UInt16 × UInt16) where
  new rows cols := (rows, cols)
  feed t _ := t
  takeProbes t := ([], t)
  resize _ rows cols := (rows, cols)
  screen t := ⟨t.1, t.2, 0, 0, false, false, none, none, "", [], [], []⟩

end Pohunek.Output
