import FirstPaint.Pass.HeadOrder
import FirstPaint.Pass.ServerRendering
import FirstPaint.Settings.Basic

/-!
# The optimizer

Runs the passes that the settings list, in their order. Each run starts with a
budget of its own; the report goes on from run to run.
-/

set_option autoImplicit false

namespace FirstPaint

/-- A document and what has been reported about it. -/
structure Optimized where
  /-- The document. -/
  tree : Tree
  /-- The report. -/
  report : Report := ∅
deriving Repr

/-- Runs one pass. -/
def PassKind.run (kind : PassKind) (styleLimit : Nat) (registry : ScriptRegistry)
    (state : Optimized) : Optimized :=
  match kind with
  | .serverRendering =>
    let rendered := renderAhead registry { limit := styleLimit } state.report state.tree
    { tree := rendered.tree, report := rendered.report }
  | .headOrder => { state with tree := orderHead registry state.tree }

/-- Runs the passes of the settings over a document. -/
def Settings.optimize (settings : Settings) (registry : ScriptRegistry) (state : Optimized) :
    Optimized :=
  settings.passes.foldl (fun state kind => kind.run settings.styleLimit registry state) state

end FirstPaint
