import FirstPaint.Document.Traversal
import FirstPaint.Json.Value

/-!
# Experiments in use

An experiment element delays rendering only if it is configured. Its
configuration is the content of its first script child of the JSON type. The
script has to hold exactly one piece of character data, and that has to be a
JSON text for a value that is not empty.
-/

set_option autoImplicit false

namespace FirstPaint

/-- The extension that runs experiments. -/
def experimentTag : String := "amp-experiment"

/-- Whether a text is JSON for a value that is not empty. -/
def isConfiguration (text : String) : Bool :=
  match Json.read text.toList with
  | .ok value => !value.isEmpty
  | .error _ => false

namespace Tree

/-- The first child that is a script of the JSON type. -/
def configurationScript? (tree : Tree) (id : NodeId) : Option NodeId :=
  (tree.children id).find? fun child =>
    tree.isTagged child "script" &&
      (tree.attribute? child "type").any (Ascii.sameName · "application/json")

/-- Whether an experiment element is configured. -/
def isConfigured (tree : Tree) (id : NodeId) : Bool :=
  match tree.configurationScript? id with
  | none => false
  | some script =>
    match tree.children script with
    | [content] => (tree.characterData? content).any isConfiguration
    | _ => false

end Tree

end FirstPaint
