import FirstPaint.Json.Quote
import FirstPaint.Markup.Fragment

/-!
# Findings

What a pass could not do is reported and does not stop it. A finding names
the kind of the problem and its cause, and shows the start tag of the element
it is about as that element looked at the time.
-/

set_option autoImplicit false

namespace FirstPaint

/-- Why the boilerplate has to stay in a document. -/
inductive BoilerplateNeed where
  /-- An experiment is configured. -/
  | experiment
  /-- An audio player gets its size from the browser. -/
  | audio
  /-- Attributes that block rendering could not be turned into rules. -/
  | blockingAttributes
  /-- An extension script delays rendering. -/
  | renderDelayingScript
  /-- No layout could be applied to an element. -/
  | unsupportedLayout
deriving DecidableEq, Repr

/-- Why an element could not be rendered ahead of time. -/
inductive RenderingProblem where
  /-- The width is not a length. -/
  | invalidWidth
  /-- The height is not a length. -/
  | invalidHeight
  /-- The layout depends on the browser. -/
  | unsupportedLayout
  /-- A list of conditional sizes cannot be read. -/
  | malformedAttribute
  /-- The rules do not fit into the custom stylesheet. -/
  | budgetExceeded
deriving DecidableEq, Repr

/-- The kind of a finding with its cause. -/
inductive FindingKind where
  /-- About the document: its boilerplate stays. -/
  | boilerplateStays (cause : BoilerplateNeed)
  /-- About one element: it is not rendered ahead of time. -/
  | notRendered (cause : RenderingProblem)
deriving DecidableEq, Repr

/-- Every need. -/
def BoilerplateNeed.all : List BoilerplateNeed :=
  [.experiment, .audio, .blockingAttributes, .renderDelayingScript, .unsupportedLayout]

/-- The published name of a need. -/
def BoilerplateNeed.name : BoilerplateNeed → String
  | .experiment => "amp-experiment"
  | .audio => "amp-audio"
  | .blockingAttributes => "attributes-requiring-boilerplate"
  | .renderDelayingScript => "render-delaying-script"
  | .unsupportedLayout => "unsupported-layout"

/-- Every problem. -/
def RenderingProblem.all : List RenderingProblem :=
  [.invalidWidth, .invalidHeight, .unsupportedLayout, .malformedAttribute, .budgetExceeded]

/-- The published name of a problem. -/
def RenderingProblem.name : RenderingProblem → String
  | .invalidWidth => "invalid-input-width"
  | .invalidHeight => "invalid-input-height"
  | .unsupportedLayout => "unsupported-layout"
  | .malformedAttribute => "malformed-attribute"
  | .budgetExceeded => "css-budget-exceeded"

namespace FindingKind

/-- Every kind with every cause. -/
def all : List FindingKind :=
  BoilerplateNeed.all.map boilerplateStays ++ RenderingProblem.all.map notRendered

/-- The published name of the kind. -/
def category : FindingKind → String
  | .boilerplateStays _ => "cannot-remove-boilerplate"
  | .notRendered _ => "cannot-perform-server-side-rendering"

/-- The published name of the cause. -/
def cause : FindingKind → String
  | .boilerplateStays cause => cause.name
  | .notRendered cause => cause.name

/-- A short stable text that identifies kind and cause. -/
def code (kind : FindingKind) : String := kind.category ++ "/" ++ kind.cause

end FindingKind

/-- Something that a pass could not do. -/
structure Finding where
  /-- What could not be done, and why. -/
  kind : FindingKind
  /-- The element concerned. -/
  element? : Option NodeId := none
  /-- The start tag of that element when the finding was made. -/
  snippet? : Option String := none
  /-- A description for readers. -/
  message : String
deriving DecidableEq, Repr

/-- A finding about an element of a tree. -/
def Finding.about (tree : Tree) (id : NodeId) (kind : FindingKind) (message : String) :
    Finding :=
  { kind, element? := some id, snippet? := some (tree.startTag id), message }

/-- The findings of one or more passes in the order in which they were made. -/
structure Report where
  /-- The findings, oldest first. -/
  toList : List Finding
deriving DecidableEq, Repr

namespace Report

/-- A report of nothing. -/
def empty : Report := ⟨[]⟩

instance : EmptyCollection Report := ⟨empty⟩

instance : Inhabited Report := ⟨empty⟩

/-- Adds a finding at the end. -/
def push (report : Report) (finding : Finding) : Report :=
  ⟨report.toList ++ [finding]⟩

/-- The number of findings. -/
def size (report : Report) : Nat := report.toList.length

/-- The number of findings of exactly one kind. -/
def count (report : Report) (kind : FindingKind) : Nat :=
  report.toList.countP (·.kind == kind)

/-- Whether there is a finding of exactly that kind. -/
def contains (report : Report) (kind : FindingKind) : Bool :=
  report.toList.any (·.kind == kind)

end Report

/-! ## The published form

A report is published as a JSON array with one object for each finding. The
element is left out: its name means nothing outside the tree. -/

/-- The object for kind and cause. -/
def FindingKind.toJson (kind : FindingKind) : List Char :=
  "\x7b\"category\":".toList ++ Json.quote kind.category ++
    ",\"cause\":".toList ++ Json.quote kind.cause ++ ['}']

/-- The object for a finding. -/
def Finding.toJson (finding : Finding) : List Char :=
  "\x7b\"kind\":".toList ++ finding.kind.toJson ++
    ",\"snippet\":".toList ++ ((finding.snippet?.map Json.quote).getD "null".toList) ++
    ",\"message\":".toList ++ Json.quote finding.message ++ ['}']

/-- The array for a report. -/
def Report.toJson (report : Report) : List Char :=
  '[' :: Json.commaSeparated (report.toList.map Finding.toJson) ++ [']']

end FirstPaint
