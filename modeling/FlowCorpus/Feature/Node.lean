import FlowCorpus.Feature.Count
import FlowCorpus.Feature.Instructions
import FlowCorpus.Feature.Model

/-!
# Node features

The features of the nodes of a control-flow graph. A node has those of the first block that starts
at its address; a node at which no block starts has none, so that there are fewer features than
nodes.
-/

set_option autoImplicit false

namespace FlowCorpus.Feature

open FlowCorpus.Assembly FlowCorpus.Graph FlowCorpus.Json FlowCorpus.Number FlowCorpus.Program

/-- The features of one node. -/
inductive NodeFeature where
  /-- A vector of a scheme. -/
  | vector (v : Vector)
  /-- The mean of vectors of a model. -/
  | pooled (t : Tensor)
  /-- Lines of instruction text. -/
  | lines (ls : List String)
  /-- The tokens of every line. -/
  | tokens (rows : List (List Binary64))
  /-- Data from elsewhere. -/
  | data (value : Value)
  /-- An entry that the given data has no place for. -/
  | absent (index : Nat)

structure FeatureOptions where
  scheme : Scheme
  maskRegisters : Bool := false
  embedder : Option Embedder := none
  encoder : Option Encoder := none

/-- The features of a block; a block without features is reported. -/
def blockFeature (architecture : Option Architecture) (options : FeatureOptions) (b : Block) :
    Traced (Option NodeFeature) := do
  if options.scheme.isCounting then
    match architecture with
    | none => throw (.architectureNeeded options.scheme.name)
    | some a =>
      let vector ← vectorOf options.scheme a b
      return if vector.isEmpty then none else some (.vector vector)
  else if options.scheme.isTextual then
    let lines ← Traced.ofExcept (blockLines (.ok options.scheme) options.maskRegisters b)
    return some (.lines lines)
  else
    match options.scheme, options.embedder, options.encoder with
    | .embedded, some model, _ =>
      let pooled ← Traced.ofExcept (embedBlock model b)
      return some (.pooled pooled)
    | .encoded, _, some model =>
      let rows ← Traced.ofExcept (encodeBlock model options.maskRegisters b)
      return some (.tokens rows)
    | _, _, _ => do
      Traced.report (.emptyFeatureVector options.scheme.name b.offset)
      return none

/-- The features at some addresses; none at all when a block has no features. -/
def featuresAt (architecture : Option Architecture) (options : FeatureOptions) (f : Function) :
    List Int → Traced (Option (List NodeFeature))
  | [] => return some []
  | address :: rest =>
    match f.blockAt? address with
    | none => featuresAt architecture options f rest
    | some b => do
      match ← blockFeature architecture options b with
      | none => return none
      | some feature =>
        return (← featuresAt architecture options f rest).map (feature :: ·)

/-- The features of the nodes of a graph, in the order of their numbers. -/
def nodeFeatures (architecture : Option Architecture) (options : FeatureOptions) (f : Function)
    (flow : Flow) : Traced (Option (List NodeFeature)) :=
  featuresAt architecture options f flow.index.addresses

namespace NodeFeature

/-- Features from data: the elements of a list, the code points of a text, or one for every field of
an object, which has none at a number. Null stands for no features at all. -/
def ofData : Value → Except Fault (Option (List NodeFeature))
  | .null => .ok none
  | .arr items => .ok (some (items.map .data))
  | .str s => .ok (some (s.points.map fun p => .data (.str (.ofPoints [p]))))
  | .obj fields => .ok (some ((List.range fields.length).map .absent))
  | _ => .error .wrongType

def doubles (values : List Binary64) : Value :=
  .arr (values.map .float)

/-- Doubles under the names of the fields of a scheme; there have to be as many. -/
def nameDoubles (scheme : Scheme) (names : List String) (values : List Binary64) :
    Except Fault Fields :=
  if values.length = names.length then
    .ok ((names.zip values).map fun (name, value) => (name, .float value))
  else .error (.featureCount names.length scheme.name values.length)

/-- The attributes of a vector: named in a counting scheme, one list otherwise. -/
def vectorAttributes (v : Vector) : Except Fault Fields :=
  match v.scheme.fields? with
  | none => .ok [("features", doubles v.values)]
  | some names => nameDoubles v.scheme names v.values

/-- The attributes of data in a scheme: numbers under the names of a counting scheme, and the data
itself otherwise. -/
def dataAttributes (scheme : Option Scheme) (value : Value) : Except Fault Fields :=
  match scheme with
  | none => .ok [("features", value)]
  | some scheme =>
    match scheme.fields? with
    | none => .ok [("features", value)]
    | some names => do
      match value.elements? with
      | none => throw .wrongType
      | some elements =>
        if elements.length = names.length then nameDoubles scheme names (← elements.mapM doubleOf)
        else throw (.featureCount names.length scheme.name elements.length)

def attributes (scheme : Option Scheme) : NodeFeature → Except Fault Fields
  | .vector v => vectorAttributes v
  | .pooled t => .ok [("features", t.toValue)]
  | .lines ls => dataAttributes scheme (.arr (ls.map fun line : String => .str line))
  | .tokens rows => dataAttributes scheme (.arr (rows.map doubles))
  | .data value => dataAttributes scheme value
  | .absent index => .error (.missingKey (toString index))

end NodeFeature
end FlowCorpus.Feature
