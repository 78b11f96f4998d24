import FirstPaint.Pass.Experiment
import FirstPaint.Responsive.Move
import FirstPaint.Script.Registry

/-!
# Rendering ahead of time

Applies the layout of every extension element, moves the attributes that block
rendering into the custom stylesheet, and removes the boilerplate, which hides
the document until the runtime has started, if nothing in the document needs it
any more. What stands in the way is reported.

A document is treated once: the html element is marked first, and a marked
document is left alone. Without a head nothing is removed.
-/

set_option autoImplicit false

namespace FirstPaint

/-- The marker of documents without boilerplate. -/
def noBoilerplateMarker : String := "i-amphtml-no-boilerplate"

/-- Markers of boilerplate styles. -/
def boilerplateMarkers : List String :=
  ["amp-boilerplate", "amp4ads-boilerplate", "amp4email-boilerplate"]

/-- Boilerplate is a marked style, or what is shown without scripts. -/
def Element.belongsToBoilerplate (element : Element) : Bool :=
  element.tag == "noscript" ||
    element.tag == "style" && boilerplateMarkers.any element.attributes.contains

/-- Whether a tag is that of an extension element. -/
def isExtensionTag (tag : String) : Bool := "amp-".toList.isPrefixOf tag.toList

/-- The state of a pass while it works through a document. -/
structure Rendering where
  /-- The document. -/
  tree : Tree
  /-- The budget of the custom stylesheet. -/
  budget : Budget
  /-- What has been reported. -/
  report : Report
  /-- Whether something was found that needs the boilerplate. -/
  needsBoilerplate : Bool := false
deriving Repr

namespace Rendering

/-- Reports a problem with an element. -/
def note (state : Rendering) (id : NodeId) (kind : FindingKind) (message : String) :
    Rendering :=
  { state with report := state.report.push (.about state.tree id kind message) }

/-- Reports that the boilerplate has to stay because of an element. -/
def block (state : Rendering) (id : NodeId) (cause : BoilerplateNeed) (message : String) :
    Rendering :=
  { state.note id (.boilerplateStays cause) message with needsBoilerplate := true }

/-- Notes an experiment that is configured. -/
def checkExperiment (state : Rendering) (id : NodeId) : Rendering :=
  if state.tree.isTagged id experimentTag && state.tree.isConfigured id then
    state.block id .experiment "amp-experiment is configured and delays rendering"
  else state

/-- Notes an audio player. -/
def checkAudio (state : Rendering) (id : NodeId) : Rendering :=
  if state.tree.isTagged id audioTag then
    state.block id .audio "amp-audio needs the browser to compute its size"
  else state

/-- Whether an element has conditional widths or heights. -/
def hasConditionalSizes (tree : Tree) (id : NodeId) : Bool :=
  (tree.element? id).any fun element =>
    element.attributes.hasValue "sizes" || element.attributes.hasValue "heights"

/-- Applies the layout of an element, or reports why it cannot be applied. -/
def layOut (state : Rendering) (id : NodeId) (sized : Bool) : Rendering :=
  match LayoutBox.ofElement state.tree id sized with
  | .ok box => { state with tree := box.applyTo state.tree id }
  | .error problem =>
    (state.note id (.notRendered problem.cause) problem.message).block id .unsupportedLayout
      "layout cannot be applied server-side"

/-- Moves the blocking attributes of an element and then applies its layout. An
element that keeps its blocking attributes gets no layout. Whether it has
conditional sizes is decided before they move. -/
def treat (state : Rendering) (id : NodeId) : Rendering :=
  let moved := moveToStylesheet state.budget state.tree id
  let after := { state with tree := moved.tree, budget := moved.budget }
  match moved.problem? with
  | none => after.layOut id (hasConditionalSizes state.tree id)
  | some problem =>
    (after.note id (.notRendered problem.cause) problem.message).block id .blockingAttributes
      "blocking attributes could not be moved to CSS"

/-- Treats one extension element; what is inside a template is left alone. -/
def visit (state : Rendering) (id : NodeId) : Rendering :=
  if state.tree.isInside id "template" then state
  else ((state.checkExperiment id).checkAudio id).treat id

/-- Treats the extension elements of a document in document order. -/
def visitAll (state : Rendering) : Rendering :=
  (state.tree.elementsBelow Tree.root fun _ element => isExtensionTag element.tag).foldl visit
    state

/-- Adds the place for the style of the runtime as first child of the head. -/
def addRuntimeStyle (state : Rendering) (head : NodeId) : Rendering :=
  let (style, created) := state.tree.createElement "style" [("amp-runtime", "")]
  { state with tree := created.prepend head style }

/-- Notes a script that delays rendering. Scripts for experiments do so only
where an experiment is configured, which is noted there. -/
def checkScript (registry : ScriptRegistry) (state : Rendering) (script : NodeId) : Rendering :=
  if state.tree.attribute? script elementScriptAttribute != some experimentTag &&
      registry.delaysRendering state.tree script then
    state.block script .renderDelayingScript "render-delaying extension script is loaded"
  else state

/-- Notes the scripts in the head that delay rendering. -/
def checkScripts (registry : ScriptRegistry) (state : Rendering) (head : NodeId) : Rendering :=
  (state.tree.elementsBelow head fun _ element =>
    element.tag == "script" && element.attributes.contains elementScriptAttribute).foldl
    (checkScript registry) state

/-- Marks the document and takes the boilerplate out of the head, unless it is
needed. -/
def dropBoilerplate (state : Rendering) (html head : NodeId) : Rendering :=
  if state.needsBoilerplate then state
  else
    -- All of it is found before any of it is detached, also what is nested.
    let marked := state.tree.setAttribute html noBoilerplateMarker ""
    let boilerplate := marked.elementsBelow head fun _ element => element.belongsToBoilerplate
    { state with tree := boilerplate.foldl (·.detach ·) marked }

/-- Treats a document whose html element has just been found unmarked. -/
def run (registry : ScriptRegistry) (state : Rendering) (html : NodeId) : Rendering :=
  let marked := { state with tree := state.tree.setAttribute html layoutMarker "" }
  let visited := marked.visitAll
  match visited.tree.head? with
  | none => visited
  | some head =>
    (checkScripts registry (visited.addRuntimeStyle head) head).dropBoilerplate html head

end Rendering

/-- A document with its report and the budget of its custom stylesheet. -/
structure Rendered where
  /-- The document. -/
  tree : Tree
  /-- The budget. -/
  budget : Budget
  /-- The report. -/
  report : Report
deriving Repr

/-- Renders a document ahead of time, unless it has no html element or is
marked. Findings are added to a report. -/
def renderAhead (registry : ScriptRegistry) (budget : Budget) (report : Report) (tree : Tree) :
    Rendered :=
  match tree.html? with
  | none => { tree, budget, report }
  | some html =>
    if tree.hasAttribute html layoutMarker then { tree, budget, report }
    else
      let final := Rendering.run registry { tree, budget, report } html
      { tree := final.tree, budget := final.budget, report := final.report }

end FirstPaint
