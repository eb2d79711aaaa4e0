import Mathlib
import FlowCorpus.Batch.Graphs
import FlowCorpus.Dedup.Graph
import FlowCorpus.Proofs.Exchange.Reading
import FlowCorpus.Proofs.Graph.Transfer
import FlowCorpus.Proofs.Json.Ascii
import FlowCorpus.Proofs.Storage.Written

/-!
# Exported graphs that are read back

The graph of a file that an export wrote is the multigraph of the flow under the labels of its
nodes, without the edges from a node to itself. The export groups the edges by their sources, which
changes neither the order of the edges from one node nor the numbers of parallel edges.
-/

set_option autoImplicit false

namespace FlowCorpus.Exchange

open FlowCorpus.Batch FlowCorpus.Dedup FlowCorpus.Feature FlowCorpus.Graph FlowCorpus.Json
open FlowCorpus.Storage

namespace Multigraph

variable {name : Nat → Name} {count : Nat}

/-! ## Nodes -/

theorem contains_map_range (apart : TellsApart name count) {i : Nat} (inside : i < count) :
    ((List.range i).map name).contains (name i) = false := by
  rw [List.contains_eq_any_beq, List.any_eq_false]
  intro other member
  obtain ⟨j, earlier, rfl⟩ := List.mem_map.mp member
  have below := List.mem_range.mp earlier
  rw [apart i inside j (Nat.lt_trans below inside), beq_iff_eq]
  exact Nat.ne_of_gt below

theorem foldlM_addNodeEntry (apart : TellsApart name count)
    (usable : ∀ i < count, nodeName (name i).value = .ok (name i)) {attributes : List Fields}
    (plain : ∀ fields ∈ attributes, PlainNames (fields.map Prod.fst)) {start : Nat}
    (inside : start + attributes.length ≤ count) {g : Multigraph}
    (named : g.names = (List.range start).map name) :
    (List.zipWith Attributed.nodeEntry
        ((List.range' start attributes.length).map fun i => (name i).value) attributes).foldlM
        addNodeEntry g =
      .ok { g with
        nodes := g.nodes ++ ((List.range' start attributes.length).map name).zip attributes } := by
  induction attributes generalizing start g with
  | nil => simp [pure, Except.pure]
  | cons fields rest ih =>
      rw [List.length_cons] at inside ⊢
      have here : start < count := by omega
      -- The names so far are those of smaller numbers, so that this node is a new one.
      have fresh : g.names.contains (name start) = false := by
        rw [named]
        exact contains_map_range apart here
      have next : ({ g with nodes := g.nodes ++ [(name start, fields)] } : Multigraph).names =
          (List.range (start + 1)).map name := by
        rw [List.range_succ, List.map_append, ← named]
        exact List.map_append
      have later := ih (fun other member => plain other (List.mem_cons_of_mem fields member))
        (by omega) next
      rw [List.range'_succ, List.map_cons, List.map_cons, List.zipWith_cons_cons, List.foldlM_cons,
        addNodeEntry_eq (plain fields List.mem_cons_self) (usable start here) fresh]
      simp only [bind, Except.bind, later, List.append_assoc, List.zip_cons_cons,
        List.singleton_append]

/-! ## Edges -/

theorem addLinkEntry_eq {labels : List Value} {node : Value} {e : Edge}
    (source : entryId node = .ok (name e.source).value)
    (atSource : nodeName (name e.source).value = .ok (name e.source))
    (target : (labels[e.target]?).getD .null = (name e.target).value)
    (atTarget : nodeName (name e.target).value = .ok (name e.target)) (g : Multigraph) :
    addLinkEntry node g (Attributed.edgeEntry labels e) = .ok (addEdge name g e) := by
  have split : splitEntry ["self", "u_for_edge", "v_for_edge"]
      [(⟨.str "weight"⟩, .int e.kind.weight), (⟨.str "id"⟩, (name e.target).value)] =
        .ok ((name e.target).value, [("weight", .int e.kind.weight)]) := rfl
  unfold addLinkEntry Attributed.edgeEntry
  rw [target, source]
  simp only [entryPairs, List.map_cons, List.map_nil, bind, Except.bind, split, atSource, atTarget]
  rfl

theorem entryId_nodeEntry {label : Value} {attributes : Fields}
    (plain : PlainNames (attributes.map Prod.fst)) :
    entryId (Attributed.nodeEntry label attributes) = .ok label := by
  rw [nodeEntry_eq plain]
  rfl

theorem foldlM_addLinkEntry {labels : List Value} {node : Value} {edges : List Edge}
    (step : ∀ e ∈ edges, ∀ g,
      addLinkEntry node g (Attributed.edgeEntry labels e) = .ok (addEdge name g e))
    (g : Multigraph) :
    (edges.map (Attributed.edgeEntry labels)).foldlM (addLinkEntry node) g =
      .ok (edges.foldl (addEdge name) g) := by
  induction edges generalizing g with
  | nil => rfl
  | cons e rest ih =>
      rw [List.map_cons, List.foldlM_cons, step e List.mem_cons_self]
      exact ih (fun other member => step other (List.mem_cons_of_mem e member)) (addEdge name g e)

/-- The graph with the edges of a row of the adjacency, which belongs to a node. -/
def addRow (g : Multigraph) (entry : Value × Value) : Except Fault Multigraph :=
  match entry.2.elements? with
  | none => throw .wrongType
  | some targets => targets.foldlM (addLinkEntry entry.1) g

theorem ofFields_arr (entries rows : List Value) :
    ofFields (.arr entries) (.arr rows) =
      entries.foldlM addNodeEntry {} >>= (entries.zip rows).foldlM addRow := rfl

def edgesFrom (flow : Flow) (node : Nat) : List Edge :=
  flow.edges.filter fun e => e.source == node && e.source != e.target

/-- The rows of the adjacency link the edges of their nodes, one node after the other. -/
theorem foldlM_addRow {flow : Flow} {labels : List Value}
    (usable : ∀ i < count, nodeName (name i).value = .ok (name i))
    (told : ∀ i < count, (labels[i]?).getD .null = (name i).value)
    (below : EndsBelow count flow.edges) {attributes : List Fields}
    (plain : ∀ fields ∈ attributes, PlainNames (fields.map Prod.fst)) {start : Nat}
    (inside : start + attributes.length ≤ count) (g : Multigraph) :
    ((List.zipWith Attributed.nodeEntry
          ((List.range' start attributes.length).map fun i => (name i).value) attributes).zip
        ((List.range' start attributes.length).map fun i =>
          .arr (Attributed.edgeEntries flow labels i))).foldlM addRow g =
      .ok (((List.range' start attributes.length).flatMap (edgesFrom flow)).foldl
        (addEdge name) g) := by
  induction attributes generalizing start g with
  | nil => rfl
  | cons fields rest ih =>
      rw [List.length_cons] at inside
      have here : start < count := by omega
      -- Whether an entry is read does not depend on the graph, so the rows need no invariant.
      have step : ∀ e ∈ edgesFrom flow start, ∀ g, addLinkEntry
          (Attributed.nodeEntry (name start).value fields) g (Attributed.edgeEntry labels e) =
            .ok (addEdge name g e) := by
        intro e member
        obtain ⟨linked, leaves⟩ := List.mem_filter.mp member
        have source : e.source = start := beq_iff_eq.mp (Bool.and_eq_true_iff.mp leaves).1
        have target := (below e linked).2
        refine addLinkEntry_eq ?_ ?_ (told e.target target) (usable e.target target)
        · rw [source]
          exact entryId_nodeEntry (plain fields List.mem_cons_self)
        · rw [source]
          exact usable start here
      have row (g : Multigraph) : addRow g (Attributed.nodeEntry (name start).value fields,
          .arr (Attributed.edgeEntries flow labels start)) =
            .ok ((edgesFrom flow start).foldl (addEdge name) g) := foldlM_addLinkEntry step g
      rw [List.length_cons, List.range'_succ, List.map_cons, List.map_cons,
        List.zipWith_cons_cons, List.zip_cons_cons, List.foldlM_cons, row, List.flatMap_cons,
        List.foldl_append]
      exact ih (fun other member => plain other (List.mem_cons_of_mem fields member)) (by omega) _

/-! ## Edges grouped by their sources -/

def grouped (flow : Flow) : List Edge :=
  (List.range flow.nodeCount).flatMap (edgesFrom flow)

theorem edgesFrom_subset (flow : Flow) (node : Nat) : edgesFrom flow node ⊆ flow.edges :=
  fun _ member => (List.mem_filter.mp member).1

theorem grouped_subset (flow : Flow) : grouped flow ⊆ flow.edges := by
  intro e member
  obtain ⟨node, _, leaves⟩ := List.mem_flatMap.mp member
  exact edgesFrom_subset flow node leaves

theorem edgesFrom_eq (flow : Flow) (node : Nat) :
    edgesFrom flow node = (flow.edges.filter leads).filter fun e => e.source == node := by
  unfold edgesFrom leads
  rw [List.filter_filter]

theorem filter_edgesFrom (flow : Flow) (node other : Nat) :
    (edgesFrom flow other).filter (fun e => e.source == node) =
      if other = node then edgesFrom flow node else [] := by
  rw [edgesFrom_eq, List.filter_filter]
  split
  · rename_i same
    rw [same, edgesFrom_eq]
    exact List.filter_congr fun e _ => Bool.and_self _
  · rename_i different
    rw [List.filter_eq_nil_iff]
    intro e _
    simp only [Bool.and_eq_true, beq_iff_eq, not_and]
    exact fun first second => different (second.symm.trans first)

/-- Grouping keeps the order of the edges from one node. -/
theorem filter_grouped {flow : Flow} {node : Nat} (inside : node < flow.nodeCount) :
    (grouped flow).filter (fun e => e.source == node) =
      (flow.edges.filter leads).filter fun e => e.source == node := by
  -- Of the nodes below a bound, only the node itself has edges from it.
  have run (bound : Nat) :
      ((List.range bound).flatMap (edgesFrom flow)).filter (fun e => e.source == node) =
        if node < bound then edgesFrom flow node else [] := by
    induction bound with
    | zero => rfl
    | succ bound ih =>
        rw [List.range_succ, List.flatMap_append, List.filter_append, ih, List.flatMap_singleton,
          filter_edgesFrom]
        by_cases before : node < bound
        · rw [if_pos before, if_neg (Nat.ne_of_gt before), if_pos (by omega), List.append_nil]
        · by_cases last : bound = node
          · rw [if_neg before, if_pos last, if_pos (by omega), List.nil_append]
          · rw [if_neg before, if_neg last, if_neg (by omega), List.append_nil]
  rw [grouped, run, if_pos inside, edgesFrom_eq]

end Multigraph

namespace Attributed

open Multigraph

def relabel (flow : Flow) (mode : NodeLabel) (name : Name) : Name :=
  match name.value with
  | .int id => labelName flow mode id.toNat
  | _ => name

/-- The multigraph of a flow without loops, its nodes under the labels of an export. -/
def relabelled (flow : Flow) (mode : NodeLabel) : Multigraph :=
  ((Multigraph.ofFlow flow).withoutLoops).renamed (relabel flow mode)

theorem labels_eq (flow : Flow) (mode : NodeLabel) :
    labels flow mode =
      (List.range' 0 flow.nodeCount).map fun i => (labelName flow mode i).value := by
  refine List.ext_getElem? fun i => ?_
  by_cases inside : i < flow.nodeCount
  · have stands : i < (labels flow mode).length := by rwa [length_labels]
    simp [labelName, inside, List.getElem?_eq_getElem stands]
  · have outside : (labels flow mode).length ≤ i := by
      rw [length_labels]
      omega
    simp [inside, List.getElem?_eq_none outside]

/-- An exported graph is read as its nodes with their attributes and its edges grouped by their
sources. -/
theorem ofFields_ofFlow {flow : Flow} {mode : NodeLabel} {attributes : List Fields}
    (below : EndsBelow flow.nodeCount flow.edges) (counted : attributes.length = flow.nodeCount)
    (plain : ∀ fields ∈ attributes, PlainNames (fields.map Prod.fst)) :
    let exported := Attributed.ofFlow flow (labels flow mode)
      (List.zipWith nodeEntry (labels flow mode) attributes)
    Multigraph.ofFields (.arr exported.nodes) (.arr (exported.adjacency.map .arr)) =
      .ok ⟨((List.range flow.nodeCount).map (labelName flow mode)).zip attributes,
        linksFrom (labelName flow mode) [] (grouped flow)⟩ := by
  intro exported
  have apart := tellsApart_labelName flow mode
  have usable : ∀ i < flow.nodeCount,
      nodeName (labelName flow mode i).value = .ok (labelName flow mode i) :=
    fun i inside => nodeName_labelName inside
  have entries : exported.nodes = List.zipWith nodeEntry
      ((List.range' 0 attributes.length).map fun i => (labelName flow mode i).value)
        attributes := by
    rw [counted, ← labels_eq]
    rfl
  have rows : exported.adjacency.map .arr = (List.range' 0 attributes.length).map fun i =>
      Value.arr (edgeEntries flow (labels flow mode) i) := by
    rw [counted, ← List.range_eq_range']
    exact List.map_map
  have named : (((List.range flow.nodeCount).map (labelName flow mode)).zip attributes).map
      Prod.fst = (List.range flow.nodeCount).map (labelName flow mode) := by
    refine List.map_fst_zip ?_
    rw [List.length_map, List.length_range]
    omega
  have bound : 0 + attributes.length ≤ flow.nodeCount := by omega
  rw [ofFields_arr, entries, rows, foldlM_addNodeEntry apart usable plain bound rfl]
  simp only [bind, Except.bind]
  rw [foldlM_addRow usable (fun _ _ => rfl) below plain bound, counted, ← List.range_eq_range',
    List.nil_append]
  exact congrArg Except.ok (foldl_addEdge
    (g := ⟨((List.range flow.nodeCount).map (labelName flow mode)).zip attributes, []⟩) apart named
    (List.nil_append (grouped flow) ▸ fun e member => below e (grouped_subset flow member)) rfl)

theorem names_relabelled {flow : Flow} (mode : NodeLabel)
    (below : EndsBelow flow.nodeCount flow.edges) :
    (relabelled flow mode).names = (List.range flow.nodeCount).map (labelName flow mode) := by
  have kept : (Multigraph.ofFlow flow).withoutLoops.names = (Multigraph.ofFlow flow).names := rfl
  unfold relabelled
  rw [names_renamed, kept, names_ofFlow below, List.map_map]
  rfl

theorem links_relabelled {flow : Flow} (mode : NodeLabel)
    (below : EndsBelow flow.nodeCount flow.edges) :
    (relabelled flow mode).links =
      linksFrom (labelName flow mode) [] (flow.edges.filter leads) := by
  unfold relabelled renamed withoutLoops
  rw [ofFlow_eq below, filter_loops_linksFrom]
  exact map_linksFrom (fun _ => rfl) [] _

/-- Grouping by sources and leaving out loops give every node the same links. -/
theorem leaving_grouped {flow : Flow} {mode : NodeLabel}
    (below : EndsBelow flow.nodeCount flow.edges) {g : Multigraph}
    (linked : g.links = linksFrom (labelName flow mode) [] (grouped flow)) {i : Nat}
    (inside : i < flow.nodeCount) :
    g.leaving (labelName flow mode i) =
      (relabelled flow mode).leaving (labelName flow mode i) := by
  have apart := tellsApart_labelName flow mode
  have groupedBelow : EndsBelow flow.nodeCount (grouped flow) := fun e member =>
    below e (grouped_subset flow member)
  have leadsBelow : EndsBelow flow.nodeCount (flow.edges.filter leads) := fun e member =>
    below e (List.mem_filter.mp member).1
  rw [leaving_eq apart groupedBelow linked inside,
    leaving_eq apart leadsBelow (links_relabelled mode below) inside, filter_grouped inside]

end Attributed
end FlowCorpus.Exchange

namespace FlowCorpus.Dedup

open FlowCorpus.Batch FlowCorpus.Exchange FlowCorpus.Feature FlowCorpus.Graph FlowCorpus.Json
open FlowCorpus.Program FlowCorpus.Storage

theorem readGraph_written {exported : Attributed} {path : Path} {w later : Workspace}
    (written : (writeGraph exported path).on w = (.ok (), later))
    (decoded : decode exported.toJson.render = .ok exported.toJson) :
    readGraph later.tree path =
      Multigraph.ofFields (.arr exported.nodes) (.arr (exported.adjacency.map .arr)) := by
  have text := readText_of_writeBelow (noReturn_render exported.toJson) written
  unfold readGraph loadGraph
  simp only [text, decoded]
  rfl

/-- The graph that is read from a written export is the multigraph of the flow without loops, under
the labels of its nodes: it has the same nodes in the same order, no two of them under one label,
each with the attributes that the export gave it, and between any two nodes the same edges with the
same weights and keys in the same order. -/
theorem readGraph_ofFeatures {f : Function} {minBlocks : Int} {flow : Flow}
    {features : Option (List NodeFeature)} {scheme : Option Scheme} {mode : NodeLabel}
    {exported : Attributed} {path : Path} {w later : Workspace}
    (built : Flow.build f minBlocks = some flow)
    (accepted : (Attributed.ofFeatures flow features scheme mode).result = .ok (some exported))
    (written : (writeGraph exported path).on w = (.ok (), later))
    (decoded : decode exported.toJson.render = .ok exported.toJson) :
    ∃ g attributes,
      readGraph later.tree path = .ok g ∧
      Attributed.givenAttributes flow scheme features = .ok attributes ∧
      exported.nodes =
        List.zipWith Attributed.nodeEntry (Attributed.labels flow mode) attributes ∧
      g.names = (Attributed.relabelled flow mode).names ∧
      g.names.map Name.value = Attributed.labels flow mode ∧
      g.nodes.map Prod.snd = attributes ∧
      (∀ source ∈ g.names, ∀ target ∈ g.names,
        g.between source target = (Attributed.relabelled flow mode).between source target) ∧
      g.orderedLinks = (Attributed.relabelled flow mode).orderedLinks ∧
      g.names.Pairwise fun first second => (first == second) = false := by
  obtain ⟨attributes, given, counted, rfl⟩ := Attributed.ofFeatures_accepted accepted
  have below : Multigraph.EndsBelow flow.nodeCount flow.edges :=
    fun e member => Flow.edges_below_build built member
  let g : Multigraph := ⟨((List.range flow.nodeCount).map (Attributed.labelName flow mode)).zip
    attributes, Multigraph.linksFrom (Attributed.labelName flow mode) [] (Multigraph.grouped flow)⟩
  have read : readGraph later.tree path = .ok g := by
    rw [readGraph_written written decoded]
    exact Attributed.ofFields_ofFlow below counted (plainNames_given given)
  have named : g.names = (List.range flow.nodeCount).map (Attributed.labelName flow mode) := by
    refine List.map_fst_zip ?_
    rw [List.length_map, List.length_range]
    omega
  have names : g.names = (Attributed.relabelled flow mode).names := by
    rw [named, Attributed.names_relabelled mode below]
  have leaving : ∀ source ∈ g.names,
      g.leaving source = (Attributed.relabelled flow mode).leaving source := by
    intro source member
    rw [named] at member
    obtain ⟨i, inside, rfl⟩ := List.mem_map.mp member
    exact Attributed.leaving_grouped below rfl (List.mem_range.mp inside)
  refine ⟨g, attributes, read, given, rfl, names, ?_, ?_, ?_, ?_, ?_⟩
  · rw [named, Attributed.labels_eq, ← List.range_eq_range', List.map_map]
    rfl
  · refine List.map_snd_zip ?_
    rw [List.length_map, List.length_range]
    omega
  · intro source member target _
    rw [Multigraph.between_eq_filter_leaving, Multigraph.between_eq_filter_leaving,
      leaving source member]
  · exact Multigraph.orderedLinks_congr names leaving
  · rw [named]
    exact (Attributed.tellsApart_labelName flow mode).pairwise

/-- A function whose only block leads to one address in two ways, and to itself. -/
def twofold : Function where
  name := "twofold"
  offset := 8
  size := some 2
  blocks := [{ offset := 8, jump := 9, fail := 9, switch := some { cases := [⟨8, 8, "0"⟩] } }]

def twofoldFlow : Flow where
  function := "twofold"
  index := ⟨[8, 9], [(8, 0), (9, 1)], by decide, rfl⟩
  edges := [⟨0, 1, .jump⟩, ⟨0, 1, .fail⟩, ⟨0, 0, .switch⟩]

def twofoldGraph : Attributed where
  adjacency := [[.obj [("weight", .int 1), ("id", .str "0x9 / 9")],
    .obj [("weight", .int 2), ("id", .str "0x9 / 9")]], []]
  nodes := [.obj [("id", .str "0x8 / 8"), ("features", .str "a")],
    .obj [("id", .str "0x9 / 9"), ("features", .null)]]

theorem readGraph_twofold :
    ∃ later g,
      Flow.build twofold 1 = some twofoldFlow ∧
      (Attributed.ofFeatures twofoldFlow (some [.data (.str "a"), .data .null]) none
        .address).result = .ok (some twofoldGraph) ∧
      (writeGraph twofoldGraph ⟨"", ["twofold.json"]⟩).on {} = (.ok (), later) ∧
      decode twofoldGraph.toJson.render = .ok twofoldGraph.toJson ∧
      readGraph later.tree ⟨"", ["twofold.json"]⟩ = .ok g ∧
      g.orderedLinks = (Attributed.relabelled twofoldFlow .address).orderedLinks := by
  have built : Flow.build twofold 1 = some twofoldFlow := rfl
  have accepted : (Attributed.ofFeatures twofoldFlow (some [.data (.str "a"), .data .null]) none
      .address).result = .ok (some twofoldGraph) := by cbv
  have decoded : decode twofoldGraph.toJson.render = .ok twofoldGraph.toJson := by cbv
  have written : ∃ later,
      (writeGraph twofoldGraph ⟨"", ["twofold.json"]⟩).on {} = (.ok (), later) := ⟨_, rfl⟩
  obtain ⟨later, written⟩ := written
  obtain ⟨g, _, read, _, _, _, _, _, _, links, _⟩ :=
    readGraph_ofFeatures built accepted written decoded
  exact ⟨later, g, built, accepted, written, decoded, read, links⟩

end FlowCorpus.Dedup
