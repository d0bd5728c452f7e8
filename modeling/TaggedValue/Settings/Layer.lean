import TaggedValue.Json.Parser
import TaggedValue.Properties.Basic
import TaggedValue.Settings.Resolve

/-!
# Layers of properties

Properties are loaded from texts in layers. Every layer has to be a table; the later ones go on top
of the earlier ones, and each member of what results becomes a property. A layer that cannot be read
fails the whole load, and so does the first member that stands for no value. A single file is a
layer whose format is told by its name.
-/

namespace TaggedValue

/-- The formats of layers. -/
inductive LayerFormat
  | json
  | yaml
deriving DecidableEq, Repr

/-- A text in some format. -/
structure Layer where
  format : LayerFormat
  text : String

namespace Layer

/-- How many collections may nest in a layer that is no JSON. -/
def maxDepth : Nat := 128

/-- The members of a layer, if it is a table. An empty document is a table without members. -/
def members? (l : Layer) : Option (List (String × Setting)) :=
  match l.format with
  | .json =>
      match Json.parseWritten? l.text with
      | some (.object ms) => (Setting.ofJsonMembers ms).map Setting.collect
      | _ => none
  | .yaml =>
      match Yaml.Node.parse? l.text with
      | some .nothing => some []
      | some (.document (.scalar "" true)) => some []
      | some (.document (.mapping ps)) =>
          if (Yaml.Node.mapping ps).depth ≤ maxDepth then
            (Setting.ofPairs ps).map Setting.collect
          else none
      | _ => none

/-- The members of all layers, the later ones on top of the earlier ones. -/
def mergeAll? (ls : List Layer) : Option (List (String × Setting)) :=
  (ls.mapM members?).map fun tables => tables.foldl Setting.mergeMembers []

end Layer

namespace Properties

/-- Adds the values of members to properties, in order. -/
def addSettings (p : Properties) : List (String × Setting) → Except Fault Properties
  | [] => .ok p
  | (name, s) :: ms =>
      match s.toJson? with
      | none => .error .malformedLayer
      | some j =>
          match j.toValue with
          | .error r => .error (.refusedProperty r)
          | .ok v => addSettings (p.insert name v) ms

/-- The properties in some layers. -/
def ofLayers (ls : List Layer) : Except Fault Properties :=
  match Layer.mergeAll? ls with
  | none => .error .malformedLayer
  | some ms => addSettings {} ms

/-! ## Files -/

def fileName (path : String) : List Char :=
  (path.toList.reverse.takeWhile (· != '/')).reverse

/-- What follows the last point of a file's name, unless the name begins with it. -/
def extension (path : String) : Option String :=
  let name := fileName path
  let ext := (name.reverse.takeWhile (· != '.')).reverse
  if ext.length + 1 < name.length then some (String.ofList ext) else none

/-- The format of a file: JSON if its extension is that, and otherwise YAML. -/
def formatOf (path : String) : LayerFormat :=
  if extension path == some "json" then .json else .yaml

/-- The properties in a file, given what it holds if there is one. -/
def ofFile (path : String) (content : Option String) : Except Fault Properties :=
  match content with
  | none => .error (.missingFile path)
  | some text => ofLayers [⟨formatOf path, text⟩]

end Properties

end TaggedValue
