import FlowCorpus.Yaml.Merge
import FlowCorpus.Yaml.Node.Reader

/-!
# Documents

The value of a source. The nodes of its document get their values level by level: a collection is
there before its items are, so that it may lie within itself, and what is faulty in an upper level
is found before what is faulty below it.
-/

set_option autoImplicit false

namespace FlowCorpus.Yaml

open FlowCorpus.Schema

/-- The value of a node while values are made: a value of its own, a collection whose items are not
known yet, or a collection of other nodes. -/
inductive Made where
  | value (d : Datum)
  | pending
  | items (nodes : List NodeId)
  | fields (entries : List (Datum × NodeId))
  | pairs (entries : List (NodeId × NodeId))
  | set (keys : List Datum)
deriving Inhabited

/-- What is known while values are made: the nodes, the values by the numbers of their nodes, and
the collections whose items are to be made next, the last one first. -/
structure Making where
  nodes : Nodes
  made : Array (Option Made)
  waiting : List NodeId := []

abbrev Make (α : Type) := Build Making α

def setMade (key : Datum) (id : NodeId) : List (Datum × NodeId) → List (Datum × NodeId)
  | [] => [(key, id)]
  | (k, v) :: rest =>
    if k.isSameKey key then (k, id) :: rest else (k, v) :: setMade key id rest

namespace Make

def node (id : NodeId) : Make Node :=
  return (← get).nodes.node id

def fail {α : Type} (activity : Option (Activity × Option Place)) (cause : Cause) (p : Place) :
    Make α :=
  throw (.problem (.located activity cause p))

def give (id : NodeId) (made : Made) : Make Unit :=
  modify fun m => { m with made := m.made.setIfInBounds id (some made) }

/-- The characters of a node that stands for a scalar: a scalar, or a mapping with a key for its
value. -/
def scalarText : Nat → NodeId → Make ScalarText
  | 0, _ => throw (.fault .tooDeep)
  | fuel + 1, id => do
    let m ← get
    let n := m.nodes.node id
    let stands (entry : NodeId × NodeId) : Bool := (m.nodes.node entry.1).tag = .value
    match n.content with
    | .scalar t => return t
    | .fields entries =>
      match entries.find? stands with
      | some (_, value) => scalarText fuel value
      | none => fail none (.expected "a scalar node" n.content.kindName) n.start
    | .items _ => fail none (.expected "a scalar node" n.content.kindName) n.start

/-- Makes the value of a node, unless it is there already. That of a collection is pending then. -/
def value (id : NodeId) : Make Unit := do
  let m ← get
  if (m.made[id]?.join).isNone then
    let n := m.nodes.node id
    match n.tag with
    | .items | .fields | .orderedMap | .pairs | .set => do
      give id .pending
      modify fun m => { m with waiting := id :: m.waiting }
    | .other _ | .merge | .value => fail none (.unknownTag n.tag.name) n.start
    | tag => do
      let t ← scalarText nestingLimit id
      let isScalar := n.content matches .scalar _
      if tag = .timestamp && !isScalar then throw (.fault .wrongType)
      match scalarValue n.start t tag with
      | .ok d => give id (.value d)
      | .error failure => throw failure

/-- The value of a key of a mapping, which may not be a collection. -/
def keyValue (mapping key : NodeId) : Make Datum := do
  value key
  match (← get).made[key]?.join with
  | some (.value d) => return d
  | _ => do
    fail (some (.mapping, some (← node mapping).start)) .unhashableKey (← node key).start

def mappingFields (id : NodeId) : Make (List (Datum × NodeId)) := do
  let n ← node id
  if !n.content matches .fields _ then
    fail none (.expected "a mapping node" n.content.kindName) n.start
  let m ← get
  match StateT.run (Nodes.merge (m.nodes.size * m.nodes.size + 1000) id) m.nodes with
  | .error failure => throw failure
  | .ok (_, nodes) => do
    set { m with nodes }
    (nodes.fieldsOf id).foldlM (fun fields (key, v) => do
      let d ← keyValue id key
      value v
      return setMade d v fields) []

/-- The items of a list, each of which is a mapping of one field. -/
def pairItems (activity : Activity) (id : NodeId) : Make (List (NodeId × NodeId)) := do
  let n ← node id
  let here := some (activity, some n.start)
  match n.content with
  | .items parts =>
    parts.mapM fun part => do
      let p ← node part
      match p.content with
      | .fields [(key, v)] => do
        value key
        value v
        return (key, v)
      | .fields entries =>
        fail here (.expected "a single mapping item" (toString entries.length ++ " items")) p.start
      | content => fail here (.expected "a mapping of length 1" content.kindName) p.start
  | content => fail here (.expected "a sequence" content.kindName) n.start

def fill (id : NodeId) : Make Unit := do
  let n ← node id
  match n.tag with
  | .items =>
    match n.content with
    | .items parts => do
      parts.forM value
      give id (.items parts)
    | content => fail none (.expected "a sequence node" content.kindName) n.start
  | .orderedMap => do give id (.pairs (← pairItems .orderedMap id))
  | .pairs => do give id (.pairs (← pairItems .pairs id))
  | .set => do give id (.set ((← mappingFields id).map Prod.fst))
  | _ => do give id (.fields (← mappingFields id))

/-- Fills the collections that are waiting, and then the ones that began to wait meanwhile. -/
def fillAll : Nat → Make Unit
  | 0 => throw (.fault .tooDeep)
  | fuel + 1 => do
    let waiting := (← get).waiting
    if !waiting.isEmpty then
      modify fun m => { m with waiting := [] }
      waiting.reverse.forM fill
      fillAll fuel

end Make

mutual

/-- The value that was made for a node, down to a depth. Within pairs and sets it does not matter
how deep values lie, and what lies deeper is left out there. -/
def datumOf (made : Array (Option Made)) : Nat → Bool → NodeId → Except Fault Datum
  | 0, inPairs, _ => if inPairs then .ok .null else .error .tooDeep
  | depth + 1, inPairs, id =>
    match made[id]?.join with
    | some (.value d) => .ok d
    | some (.items nodes) => Datum.list <$> datumsOf made depth inPairs nodes
    | some (.fields entries) => Datum.mapping <$> entriesOf made depth inPairs entries
    | some (.pairs entries) => do
      let firsts ← datumsOf made depth true (entries.map Prod.fst)
      let seconds ← datumsOf made depth true (entries.map Prod.snd)
      return .pairs (firsts.zip seconds)
    | some (.set keys) => .ok (.set keys)
    | some .pending | none => .ok .null

def datumsOf (made : Array (Option Made)) (depth : Nat) (inPairs : Bool) :
    List NodeId → Except Fault (List Datum)
  | [] => .ok []
  | id :: rest => do
    let d ← datumOf made depth inPairs id
    return d :: (← datumsOf made depth inPairs rest)

def entriesOf (made : Array (Option Made)) (depth : Nat) (inPairs : Bool) :
    List (Datum × NodeId) → Except Fault (List (Datum × Datum))
  | [] => .ok []
  | (key, id) :: rest => do
    let d ← datumOf made depth inPairs id
    return (key, d) :: (← entriesOf made depth inPairs rest)

end

def documentValue (nodes : Nodes) (root : NodeId) : Except Failure Datum := do
  let start : Making := ⟨nodes, Array.replicate nodes.size none, []⟩
  let (_, m) ← StateT.run (do Make.value root; Make.fillAll (nodes.size + 1)) start
  orFault (datumOf m.made nestingLimit false root)

def isAcceptable (c : Char) : Bool :=
  let n := c.toNat
  c == '\t' || c == '\n' || c == '\r' || (0x20 ≤ n && n ≤ 0x7e) || n == 0x85 ||
    (0xa0 ≤ n && n ≤ 0xfffd) || 0x10000 ≤ n

def read (source : List Char) : Except Failure Datum := do
  match source.find? fun c => !isAcceptable c with
  | some c => throw (.problem (.unacceptable c (source.takeWhile isAcceptable).length))
  | none =>
    match ← Nodes.ofSource source with
    | (_, none) => return .null
    | (nodes, some root) => documentValue nodes root

end FlowCorpus.Yaml
