import FlowCorpus.Yaml.Node
import FlowCorpus.Yaml.Token.Lexer

/-!
# From tokens to nodes

The nodes of the one document that tokens make. Anchors name nodes, and aliases stand for the nodes
of their names; handles abbreviate tags.
-/

set_option autoImplicit false

namespace FlowCorpus.Yaml

def commonHandles : List (String × String) :=
  [("!", "!"), ("!!", commonTags)]

/-- What is known while tokens are read: the tokens that are left and what stops the reading behind
them, the nodes so far, the nodes of anchors, and the handles. -/
structure Reading where
  tokens : List Token
  failure : Failure
  nodes : Nodes := #[]
  anchors : List (String × NodeId) := []
  handles : List (String × String) := commonHandles

abbrev Read (α : Type) := StateT Reading (Except Failure) α

/-- What stands in front of a node: its anchor, its full tag, and where these begin. -/
structure Properties where
  anchor : Option String := none
  tag : Option String := none
  start : Option Place := none

def Properties.isEmpty (p : Properties) : Bool :=
  p.anchor.isNone && p.tag.isNone

namespace Read

variable {α : Type}

def peek : Read Token := do
  match (← get).tokens with
  | t :: _ => return t
  | [] => throw (← get).failure

def drop : Read Unit :=
  modify fun r => { r with tokens := r.tokens.tail }

def next (p : TokenKind → Bool) : Read Bool :=
  return p (← peek).kind

def fail (activity : Option (Activity × Option Place)) (cause : Cause) (p : Place) : Read α :=
  throw (.problem (.located activity cause p))

/-- Stops because something else than the next token was expected, in an activity that began at a
place. -/
def failExpected (activity : Activity) (start : Place) (what : String) : Read α := do
  let t ← peek
  fail (some (activity, some start)) (.expected what t.kind.name) t.start

/-- A new node, which gets the name of its anchor. A name is given once. -/
def create (properties : Properties) (node : Node) : Read NodeId := do
  let r ← get
  let id := r.nodes.size
  match properties.anchor with
  | none => do
    set { r with nodes := r.nodes.push node }
    return id
  | some name =>
    match r.anchors.lookup name with
    | some first =>
      fail (some (.repeatedAnchor name, some (r.nodes.node first).start)) .secondAnchor node.start
    | none => do
      set { r with nodes := r.nodes.push node, anchors := (name, id) :: r.anchors }
      return id

def fill (id : NodeId) (content : NodeContent) : Read NodeId := do
  modify fun r => { r with nodes := r.nodes.setContent id content }
  return id

def omitted (p : Place) : Read NodeId :=
  create {} ⟨.null, .scalar ⟨[], false⟩, p⟩

def anchor? : Read (Option (String × Place)) := do
  let t ← peek
  match t.kind with
  | .anchor name => do
    drop
    return some (name, t.start)
  | _ => return none

def tag? : Read (Option ((Option String × String) × Place)) := do
  let t ← peek
  match t.kind with
  | .tag handle suffix => do
    drop
    return some ((handle, suffix), t.start)
  | _ => return none

def fullTag (handle : Option String) (suffix : String) (start p : Place) : Read String := do
  match handle with
  | none => return suffix
  | some handle =>
    match (← get).handles.lookup handle with
    | some full => return full ++ suffix
    | none => fail (some (.node, some start)) (.unknownHandle handle) p

/-- What stands in front of a node: an anchor and a tag, in either order. -/
def properties : Read Properties := do
  let before ← anchor?
  let tag ← tag?
  let behind ← if before.isNone && tag.isSome then anchor? else pure none
  let anchor := before.or behind
  match tag with
  | none => return { anchor := anchor.map Prod.fst, start := anchor.map Prod.snd }
  | some ((handle, suffix), p) => do
    let start := (before.map Prod.snd).getD p
    let tag ← fullTag handle suffix start p
    return ⟨anchor.map Prod.fst, some tag, some start⟩

end Read

/-- The tag of a node: the given one, unless it leaves the tag open. -/
def Properties.tagOr (p : Properties) (default : Tag) : Tag :=
  match p.tag with
  | none | some "!" => default
  | some name => .ofName name

/-- The tag of a scalar by its form. The characters of a scalar that is set off count only when its
tag is left open on purpose. -/
def Properties.scalarTag (p : Properties) (chars : List Char) (form : ScalarForm) : Tag :=
  if form = .plain || p.tag = some "!" then p.tagOr (.ofChars chars) else p.tagOr .text

/-- The tag of a node of which there are only properties. -/
def Properties.omittedTag (p : Properties) : Tag :=
  p.tagOr .null

namespace Read

/-- Whether a key or value is left out before a token, in a block. -/
def endsEntry (kind : TokenKind) : Bool :=
  kind matches .key | .value | .blockEnd

mutual

/-- The node at the next token. In a block there may be block collections, and in a mapping also
items that are not indented further. -/
def node : Nat → Nat → Bool → Bool → Read NodeId
  | 0, _, _, _ => throw (.fault .tooDeep)
  | _ + 1, 0, _, _ => throw (.fault .tooDeep)
  | fuel + 1, depth + 1, block, flush => do
    let t ← peek
    match t.kind with
    | .aliasOf name => do
      drop
      match (← get).anchors.lookup name with
      | some id => return id
      | none => fail none (.unknownAlias name) t.start
    | _ => do
      let p ← properties
      let t ← peek
      let start := p.start.getD t.start
      match t.kind with
      | .scalar chars form => do
        drop
        create p ⟨p.scalarTag chars form, .scalar ⟨chars, form == .halved⟩, start⟩
      | .flowItemsStart => do
        let id ← create p ⟨p.tagOr .items, .items [], start⟩
        drop
        fill id (.items (← flowItems fuel depth t.start true))
      | .flowFieldsStart => do
        let id ← create p ⟨p.tagOr .fields, .fields [], start⟩
        drop
        fill id (.fields (← flowFields fuel depth t.start true))
      | kind =>
        if kind = .item && flush then do
          let id ← create p ⟨p.tagOr .items, .items [], start⟩
          fill id (.items (← flushItems fuel depth))
        else if kind = .blockItemsStart && block then do
          let id ← create p ⟨p.tagOr .items, .items [], start⟩
          drop
          fill id (.items (← blockItems fuel depth t.start))
        else if kind = .blockFieldsStart && block then do
          let id ← create p ⟨p.tagOr .fields, .fields [], start⟩
          drop
          fill id (.fields (← blockFields fuel depth t.start))
        else if p.isEmpty then
          failExpected (if block then .blockNode else .flowNode) start "the node content"
        else create p ⟨p.omittedTag, .scalar ⟨[], false⟩, start⟩

def blockItems : Nat → Nat → Place → Read (List NodeId)
  | 0, _, _ => throw (.fault .tooDeep)
  | fuel + 1, depth, start => do
    let t ← peek
    match t.kind with
    | .item => do
      drop
      let id ←
        if ← next fun kind => kind matches .item | .blockEnd then omitted t.stop
        else node fuel depth true false
      return id :: (← blockItems fuel depth start)
    | .blockEnd => do
      drop
      return []
    | _ => failExpected .blockItems start "<block end>"

/-- The items of a list in block form that is not indented further than its mapping. -/
def flushItems : Nat → Nat → Read (List NodeId)
  | 0, _ => throw (.fault .tooDeep)
  | fuel + 1, depth => do
    let t ← peek
    match t.kind with
    | .item => do
      drop
      let id ←
        if ← next fun kind => kind = .item || endsEntry kind then omitted t.stop
        else node fuel depth true false
      return id :: (← flushItems fuel depth)
    | _ => return []

def blockFields : Nat → Nat → Place → Read (List (NodeId × NodeId))
  | 0, _, _ => throw (.fault .tooDeep)
  | fuel + 1, depth, start => do
    let t ← peek
    match t.kind with
    | .key => do
      drop
      let key ← if ← next endsEntry then omitted t.stop else node fuel depth true true
      let v ← peek
      let value ←
        if v.kind = .value then do
          drop
          if ← next endsEntry then omitted v.stop else node fuel depth true true
        else omitted v.start
      return (key, value) :: (← blockFields fuel depth start)
    | .blockEnd => do
      drop
      return []
    | _ => failExpected .blockFields start "<block end>"

/-- The items of a list in flow form, which begins at a place. A separator stands before all but the
first. A key makes a mapping of one field. -/
def flowItems : Nat → Nat → Place → Bool → Read (List NodeId)
  | 0, _, _, _ => throw (.fault .tooDeep)
  | fuel + 1, depth, start, first => do
    let t ← peek
    if t.kind = .flowItemsEnd then do
      drop
      return []
    else do
      if !first then
        if t.kind = .separator then drop
        else fail (some (.flowItems, some start)) (.expectedInFlow ']' t.kind.name) t.start
      let t ← peek
      match t.kind with
      | .flowItemsEnd => do
        drop
        return []
      | .key => do
        let id ← pairNode fuel depth
        return id :: (← flowItems fuel depth start false)
      | _ => do
        let id ← node fuel depth false false
        return id :: (← flowItems fuel depth start false)

def pairNode : Nat → Nat → Read NodeId
  | 0, _ => throw (.fault .tooDeep)
  | _ + 1, 0 => throw (.fault .tooDeep)
  | fuel + 1, depth + 1 => do
    let t ← peek
    let id ← create {} ⟨.fields, .fields [], t.start⟩
    drop
    let key ←
      if ← next fun kind => kind matches .value | .separator | .flowItemsEnd then omitted t.stop
      else node fuel depth false false
    let v ← peek
    let value ←
      if v.kind = .value then do
        drop
        if ← next fun kind => kind matches .separator | .flowItemsEnd then omitted v.stop
        else node fuel depth false false
      else omitted v.start
    let _ ← peek
    fill id (.fields [(key, value)])

/-- The fields of a mapping in flow form, which begins at a place. A separator stands before all but
the first. -/
def flowFields : Nat → Nat → Place → Bool → Read (List (NodeId × NodeId))
  | 0, _, _, _ => throw (.fault .tooDeep)
  | fuel + 1, depth, start, first => do
    let t ← peek
    if t.kind = .flowFieldsEnd then do
      drop
      return []
    else do
      if !first then
        if t.kind = .separator then drop
        else fail (some (.flowFields, some start)) (.expectedInFlow '\x7d' t.kind.name) t.start
      let t ← peek
      match t.kind with
      | .flowFieldsEnd => do
        drop
        return []
      | .key => do
        drop
        let key ←
          if ← next fun kind => kind matches .value | .separator | .flowFieldsEnd then
            omitted t.stop
          else node fuel depth false false
        let v ← peek
        let value ←
          if v.kind = .value then do
            drop
            if ← next fun kind => kind matches .separator | .flowFieldsEnd then omitted v.stop
            else node fuel depth false false
          else omitted v.start
        return (key, value) :: (← flowFields fuel depth start false)
      | _ => do
        let key ← node fuel depth false false
        let value ← omitted (← peek).start
        return (key, value) :: (← flowFields fuel depth start false)

end

/-- What the directives in front of a document have said: whether there was a version, and the
handles. -/
structure Directives where
  hasVersion : Bool := false
  handles : List (String × String) := []

def directives : Nat → Directives → Read Directives
  | 0, d => return d
  | fuel + 1, d => do
    let t ← peek
    match t.kind with
    | .directive (.version major) => do
      if d.hasVersion then fail none .repeatedVersion t.start
      if major != 1 then fail none .unknownVersion t.start
      drop
      directives fuel { d with hasVersion := true }
    | .directive (.handle name full) => do
      if (d.handles.lookup name).isSome then fail none (.repeatedHandle name) t.start
      drop
      directives fuel { d with handles := d.handles ++ [(name, full)] }
    | .directive .other => do
      drop
      directives fuel d
    | _ => return d

def documentStart (fuel : Nat) : Read Unit := do
  let d ← directives fuel {}
  modify fun r => { r with handles := d.handles ++ commonHandles }
  let t ← peek
  if t.kind = .documentStart then drop
  else fail none (.expected "'<document start>'" t.kind.name) t.start

def dropEnds : Nat → Read Unit
  | 0 => return
  | fuel + 1 => do
    if ← next (· = .documentEnd) then
      drop
      dropEnds fuel

def endsDocument (kind : TokenKind) : Bool :=
  match kind with
  | .directive _ | .documentStart | .documentEnd | .streamEnd => true
  | _ => false

def document (fuel : Nat) : Read NodeId := do
  if ← next fun kind => endsDocument kind && kind != .documentEnd then
    documentStart fuel
    let t ← peek
    if endsDocument t.kind then omitted t.start else node fuel nestingLimit true false
  else node fuel nestingLimit true false

/-- The root of the only document, if there is one. -/
def root (fuel : Nat) : Read (Option NodeId) := do
  if ← next (· = .streamEnd) then return none
  else do
    let id ← document fuel
    dropEnds fuel
    let t ← peek
    if t.kind = .streamEnd then return some id
    else do
      documentStart fuel
      let start := ((← get).nodes.node id).start
      fail (some (.singleDocument, some start)) .anotherDocument t.start

end Read

def Nodes.ofSource (source : List Char) : Except Failure (Nodes × Option NodeId) := do
  let tokens := Tokens.ofSource source
  let fuel := 4 * tokens.tokens.length + 16
  let (id, r) ← StateT.run (Read.root fuel) { tokens := tokens.tokens, failure := tokens.failure }
  return (r.nodes, id)

end FlowCorpus.Yaml
