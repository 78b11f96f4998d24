import FirstPaint.Document.Tree

/-!
# What scripts do

The passes need to know three things about a script: whether it loads the
runtime, whether it loads the viewer integration, and whether it loads an
extension that delays rendering. A registry answers these questions. The
published registry knows the scripts of the public cache by their path, and the
delaying extensions by their name.
-/

set_option autoImplicit false

namespace FirstPaint

/-- Answers about the scripts of a document. -/
structure ScriptRegistry where
  /-- The script loads the runtime. -/
  isRuntime : Tree → NodeId → Bool
  /-- The script loads the viewer integration. -/
  isViewer : Tree → NodeId → Bool
  /-- The script loads an extension that delays rendering. -/
  delaysRendering : Tree → NodeId → Bool

/-- The attribute that names the element which an extension script defines. -/
def elementScriptAttribute : String := "custom-element"

/-- The attribute that names the template type which an extension script
defines. -/
def templateScriptAttribute : String := "custom-template"

/-- What follows a given start of a list. -/
def dropStart? (start text : List Char) : Option (List Char) :=
  if start.isPrefixOf text then some (text.drop start.length) else none

namespace ScriptRegistry

/-- The host of the public cache. -/
def publicCache : String := "https://cdn.ampproject.org"

/-- The path in the public cache of a script that is no extension. -/
def pathInCache? (tree : Tree) (script : NodeId) : Option (List Char) :=
  if tree.isTagged script "script" && !tree.hasAttribute script elementScriptAttribute &&
      !tree.hasAttribute script templateScriptAttribute then do
    dropStart? publicCache.toList (← tree.attribute? script "src").toList
  else none

/-- Whether a path in the cache, possibly in the branch with long-term support,
is one of the two runtimes. -/
def isRuntimePath (path : List Char) : Bool :=
  let path := (dropStart? "/lts".toList path).getD path
  path == "/v0.js".toList || path == "/v0.mjs".toList

/-- Extensions that delay rendering. -/
def delayingExtensions : List String :=
  ["amp-dynamic-css-classes", "amp-experiment", "amp-story"]

/-- The registry of the public cache. -/
def published : ScriptRegistry where
  isRuntime tree script := (pathInCache? tree script).any isRuntimePath
  isViewer tree script := (pathInCache? tree script).any ("/v0/amp-viewer-host".toList.isPrefixOf ·)
  delaysRendering tree script :=
    tree.isTagged script "script" &&
      (tree.attribute? script elementScriptAttribute).any delayingExtensions.contains

/-- A registry that knows the runtime and the viewer by their addresses and the
delaying extensions by their names. -/
def ofLists (runtimes viewers delaying : List String) : ScriptRegistry where
  isRuntime tree script := (tree.attribute? script "src").any runtimes.contains
  isViewer tree script := (tree.attribute? script "src").any viewers.contains
  delaysRendering tree script :=
    (tree.attribute? script elementScriptAttribute).any delaying.contains

end ScriptRegistry

end FirstPaint
