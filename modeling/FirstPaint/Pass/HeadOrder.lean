import FirstPaint.Document.Editing
import FirstPaint.Script.Registry
import FirstPaint.Stylesheet.Author

/-!
# The order of the head

The children of the head are put into a canonical order: character set, runtime
style, other metadata, scripts, links, author styles, everything else, and the
boilerplate at the end. Each child falls into a group, and the groups follow one
another in the order in which they are listed here.

Some groups hold one node, and the last child that falls into such a group stays.
Extension scripts are listed by the name of the extension, and of several
scripts for one extension the last one stays. Text that is blank falls into no
group. What does not stay is detached; nothing else about any node changes.
-/

set_option autoImplicit false

namespace FirstPaint

/-- A place in the order of the head. -/
inductive HeadGroup where
  /-- The declaration of the character set. -/
  | metaCharset
  /-- A link to the style of the runtime. -/
  | linkStyleRuntime
  /-- The style of the runtime. -/
  | styleRuntime
  /-- Other metadata. -/
  | metaOther
  /-- The script of the runtime. -/
  | scriptRuntime
  /-- The script of the viewer integration. -/
  | scriptViewer
  /-- Extension scripts that delay rendering. -/
  | scriptsDelaying
  /-- Other extension scripts. -/
  | scriptsNotDelaying
  /-- Icons of the document. -/
  | linkIcons
  /-- Links to what will be needed soon. -/
  | linkHints
  /-- Links to style sheets ahead of the custom stylesheet. -/
  | linkStylesBeforeCustom
  /-- The custom stylesheet. -/
  | styleCustom
  /-- Anything else. -/
  | others
  /-- The boilerplate style. -/
  | styleBoilerplate
  /-- The boilerplate for browsers without scripts. -/
  | noscript
deriving DecidableEq, Repr

namespace HeadGroup

/-- Every group, in the order of the head. -/
def all : List HeadGroup :=
  [.metaCharset, .linkStyleRuntime, .styleRuntime, .metaOther, .scriptRuntime, .scriptViewer,
    .scriptsDelaying, .scriptsNotDelaying, .linkIcons, .linkHints, .linkStylesBeforeCustom,
    .styleCustom, .others, .styleBoilerplate, .noscript]

/-- The name of a group. -/
def name : HeadGroup → String
  | .metaCharset => "meta-charset"
  | .linkStyleRuntime => "link-style-amp-runtime"
  | .styleRuntime => "style-amp-runtime"
  | .metaOther => "meta-other"
  | .scriptRuntime => "script-amp-runtime"
  | .scriptViewer => "script-amp-viewer"
  | .scriptsDelaying => "script-render-delaying-extensions"
  | .scriptsNotDelaying => "script-non-render-delaying-extensions"
  | .linkIcons => "link-icons"
  | .linkHints => "resource-hint-links"
  | .linkStylesBeforeCustom => "link-stylesheets-before-amp-custom"
  | .styleCustom => "style-amp-custom"
  | .others => "others"
  | .styleBoilerplate => "style-amp-boilerplate"
  | .noscript => "noscript"

/-- Whether the group holds one node. -/
def isSingle : HeadGroup → Bool
  | .metaCharset | .linkStyleRuntime | .styleRuntime | .scriptRuntime | .scriptViewer
  | .styleCustom | .styleBoilerplate | .noscript => true
  | .metaOther | .scriptsDelaying | .scriptsNotDelaying | .linkIcons | .linkHints
  | .linkStylesBeforeCustom | .others => false

/-- Whether the group lists extension scripts by name. -/
def isByName : HeadGroup → Bool
  | .scriptsDelaying | .scriptsNotDelaying => true
  | _ => false

end HeadGroup

/-! ## Which group a child falls into -/

/-- The group of a script. -/
def groupOfScript (registry : ScriptRegistry) (tree : Tree) (script : NodeId) : HeadGroup :=
  if registry.isRuntime tree script then .scriptRuntime
  else if registry.isViewer tree script then .scriptViewer
  else if tree.hasAttribute script elementScriptAttribute then
    if registry.delaysRendering tree script then .scriptsDelaying else .scriptsNotDelaying
  else if tree.hasAttribute script templateScriptAttribute then .scriptsNotDelaying
  else .others

/-- The group of a style element. -/
def groupOfStyle (attributes : Attributes) : HeadGroup :=
  if attributes.contains "amp-runtime" then .styleRuntime
  else if attributes.contains customStyleMarker then .styleCustom
  else if attributes.contains "amp-boilerplate" || attributes.contains "amp4ads-boilerplate" then
    .styleBoilerplate
  else .others

/-- Whether an address ends like that of the style of the runtime. -/
def isRuntimeStyleAddress (address : String) : Bool :=
  "/v0.css".toList.isSuffixOf address.toList

/-- The group of a link. A link to a style sheet is kept ahead of the custom
stylesheet if it stood ahead of it. -/
def groupOfLink (attributes : Attributes) (afterCustomStyle : Bool) : HeadGroup :=
  let relation := Ascii.lower ((attributes.get? "rel").getD "")
  if relation = "stylesheet" then
    if (attributes.get? "href").any isRuntimeStyleAddress then .linkStyleRuntime
    else if afterCustomStyle then .others
    else .linkStylesBeforeCustom
  else if ["icon", "shortcut icon", "icon shortcut"].contains relation then .linkIcons
  else if ["preload", "prefetch", "dns-prefetch", "preconnect"].contains relation then .linkHints
  else .others

/-- The group of a child of the head, or none for blank text. -/
def groupOf? (registry : ScriptRegistry) (tree : Tree) (afterCustomStyle : Bool) (node : NodeId) :
    Option HeadGroup :=
  match tree.element? node with
  | none =>
    if (tree.text? node).any (·.toList.all Ascii.isBlank) then none else some .others
  | some element =>
    match element.tag with
    | "meta" => some (if element.attributes.contains "charset" then .metaCharset else .metaOther)
    | "script" => some (groupOfScript registry tree node)
    | "style" => some (groupOfStyle element.attributes)
    | "link" => some (groupOfLink element.attributes afterCustomStyle)
    | "noscript" => some .noscript
    | _ => some .others

/-! ## The sweep -/

/-- A node with the group it fell into. -/
structure Placed where
  /-- The group. -/
  group : HeadGroup
  /-- The node. -/
  node : NodeId
deriving DecidableEq, Repr

/-- The children that fall into a group, from left to right. Whether the custom
stylesheet has been passed depends on the children before. -/
def placements (registry : ScriptRegistry) (tree : Tree) :
    Bool → List NodeId → List Placed
  | _, [] => []
  | afterCustomStyle, node :: rest =>
    match groupOf? registry tree afterCustomStyle node with
    | none => placements registry tree afterCustomStyle rest
    | some group =>
      ⟨group, node⟩ :: placements registry tree (afterCustomStyle || group == .styleCustom) rest

/-- The name of the extension that a script defines. -/
def nameOfExtension (tree : Tree) (script : NodeId) : String :=
  (tree.attribute? script elementScriptAttribute <|>
    tree.attribute? script templateScriptAttribute).getD ""

/-- Puts a script into a list that is ordered by name, in place of a script of
the same name. -/
def insertByName (nameOf : NodeId → String) (script : NodeId) : List NodeId → List NodeId
  | [] => [script]
  | first :: rest =>
    if nameOf script < nameOf first then script :: first :: rest
    else if nameOf script = nameOf first then script :: rest
    else first :: insertByName nameOf script rest

/-- The nodes that stay in a group, out of all that fell into it. -/
def HeadGroup.keep (group : HeadGroup) (tree : Tree) (nodes : List NodeId) : List NodeId :=
  if group.isSingle then nodes.getLast?.toList
  else if group.isByName then
    nodes.foldl (fun kept script => insertByName (nameOfExtension tree) script kept) []
  else nodes

/-- The children of the head in canonical order. -/
def canonicalOrder (registry : ScriptRegistry) (tree : Tree) (children : List NodeId) :
    List NodeId :=
  -- The sweep comes first: the group of a link depends on what stood before it.
  let placed := placements registry tree false children
  HeadGroup.all.flatMap fun group =>
    group.keep tree ((placed.filter (·.group == group)).map (·.node))

/-- Puts the children of the head into canonical order. A document without a
head stays as it is. -/
def orderHead (registry : ScriptRegistry) (tree : Tree) : Tree :=
  match tree.head? with
  | none => tree
  | some head =>
    let released := tree.releaseChildren head
    (canonicalOrder registry released (tree.children head)).foldl (·.append head) released

end FirstPaint
