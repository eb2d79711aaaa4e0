import FlowCorpus.Proofs.Exchange.Label

/-!
# Links of a multigraph

A multigraph that links the edges of a flow keeps every one of them, in order, under the number of
edges before it between the same nodes. Edges between other nodes have no part in that number, so
that leaving them out, or linking them in another order, does not change it.
-/

set_option autoImplicit false

namespace FlowCorpus.Exchange.Multigraph

open FlowCorpus.Graph FlowCorpus.Json

def parallel (e other : Edge) : Bool :=
  other.source == e.source && other.target == e.target

def linkOf (name : Nat → Name) (earlier : List Edge) (e : Edge) : Link :=
  ⟨name e.source, name e.target, nameOf (earlier.countP (parallel e)),
    [("weight", .int e.kind.weight)]⟩

def linksFrom (name : Nat → Name) : List Edge → List Edge → List Link
  | _, [] => []
  | earlier, e :: rest => linkOf name earlier e :: linksFrom name (earlier ++ [e]) rest

def addEdge (name : Nat → Name) (g : Multigraph) (e : Edge) : Multigraph :=
  g.addLink (name e.source) (name e.target) none [("weight", .int e.kind.weight)]

theorem eq_of_parallel {e other : Edge} (same : parallel e other = true) :
    other.source = e.source ∧ other.target = e.target := by
  simpa only [parallel, Bool.and_eq_true, beq_iff_eq] using same

theorem length_linksFrom (name : Nat → Name) (earlier edges : List Edge) :
    (linksFrom name earlier edges).length = edges.length := by
  induction edges generalizing earlier with
  | nil => rfl
  | cons e rest ih => simp only [linksFrom, List.length_cons, ih]

theorem linksFrom_concat (name : Nat → Name) (earlier edges : List Edge) (e : Edge) :
    linksFrom name earlier (edges ++ [e]) =
      linksFrom name earlier edges ++ [linkOf name (earlier ++ edges) e] := by
  induction edges generalizing earlier with
  | nil => simp only [List.nil_append, linksFrom, List.append_nil]
  | cons first rest ih =>
      simp only [List.cons_append, linksFrom, ih, List.append_assoc, List.nil_append]

theorem key_of_mem_linksFrom {name : Nat → Name} {earlier edges : List Edge} {l : Link}
    (member : l ∈ linksFrom name earlier edges) :
    ∃ n < earlier.length + edges.length, l.key = nameOf n := by
  induction edges generalizing earlier with
  | nil => cases member
  | cons e rest ih =>
      rcases List.mem_cons.mp member with rfl | later
      · refine ⟨earlier.countP (parallel e), ?_, rfl⟩
        have bound : earlier.countP (parallel e) ≤ earlier.length := List.countP_le_length
        simp only [List.length_cons]
        omega
      · obtain ⟨n, bound, key⟩ := ih later
        refine ⟨n, ?_, key⟩
        simp only [List.length_append, List.length_cons, List.length_nil] at bound ⊢
        omega

theorem linkOf_filter {name : Nat → Name} {keep : Edge → Bool} {e : Edge}
    (kept : ∀ other, parallel e other = true → keep other = true) (earlier : List Edge) :
    linkOf name (earlier.filter keep) e = linkOf name earlier e := by
  have count : (earlier.filter keep).countP (parallel e) = earlier.countP (parallel e) := by
    rw [List.countP_filter]
    refine List.countP_congr fun other _ => ?_
    rw [Bool.and_eq_true]
    exact ⟨fun both => both.1, fun same => ⟨same, kept other same⟩⟩
  simp only [linkOf, count]

/-- Leaving out all edges between some nodes leaves out their links and changes no other. -/
theorem filter_linksFrom {name : Nat → Name} {keep : Edge → Bool} {pick : Link → Bool}
    (whole : ∀ e other, parallel e other = true → keep other = keep e) {edges : List Edge}
    (agrees : ∀ e ∈ edges, ∀ before, pick (linkOf name before e) = keep e) (earlier : List Edge) :
    (linksFrom name earlier edges).filter pick =
      linksFrom name (earlier.filter keep) (edges.filter keep) := by
  -- An edge joins the earlier ones before the next is linked, so these are general.
  induction edges generalizing earlier with
  | nil => rfl
  | cons e rest ih =>
      have later := ih (fun other member => agrees other (List.mem_cons_of_mem e member))
        (earlier ++ [e])
      have first := agrees e List.mem_cons_self earlier
      rw [List.filter_append] at later
      cases kept : keep e with
      | false =>
          rw [kept] at first
          simp only [linksFrom, List.filter_cons, first, kept, Bool.false_eq_true, ↓reduceIte,
            later, List.filter_nil, List.append_nil]
      | true =>
          rw [kept] at first
          have same : linkOf name (earlier.filter keep) e = linkOf name earlier e :=
            linkOf_filter (fun other along => (whole e other along).trans kept) earlier
          simp only [linksFrom, List.filter_cons, first, kept, ↓reduceIte, later, List.filter_nil,
            same]

/-! ## Nodes and keys -/

theorem addNode_of_contains {g : Multigraph} {name : Name} (known : g.names.contains name = true) :
    g.addNode name [] = g := by
  unfold addNode
  rw [if_pos known]
  refine congrArg (Multigraph.mk · g.links) ?_
  refine (List.map_congr_left fun node _ => ?_).trans (List.map_id g.nodes)
  -- Nothing is set over the attributes of a node that has the name.
  change (if node.1 == name then (node.1, node.2) else (node.1, node.2)) = node
  rw [ite_self]

theorem addNode_of_not_contains {g : Multigraph} {name : Name} (attributes : Fields)
    (fresh : g.names.contains name = false) :
    g.addNode name attributes = { g with nodes := g.nodes ++ [(name, attributes)] } := by
  unfold addNode
  rw [if_neg (by simp [fresh])]

theorem nameOf_beq (m n : Nat) : (nameOf m == nameOf n) = (m == n) :=
  tellsApart_nameOf (max m n + 1) m (by omega) n (by omega)

theorem newKey_eq {g : Multigraph} {source target : Name}
    (below : ∀ l ∈ g.between source target, ∃ n < (g.between source target).length,
      l.key = nameOf n) :
    g.newKey source target = nameOf (g.between source target).length := by
  have free : ((g.between source target).map Link.key).contains
      (nameOf (g.between source target).length) = false := by
    rw [List.contains_eq_any_beq, List.any_eq_false]
    intro key member
    obtain ⟨l, linked, rfl⟩ := List.mem_map.mp member
    obtain ⟨n, bound, key⟩ := below l linked
    rw [key, nameOf_beq, beq_iff_eq]
    omega
  unfold newKey
  simp only [List.length_map]
  cases count : (g.between source target).length with
  | zero => rfl
  | succ fuel =>
      rw [count] at free
      unfold freeKey
      rw [if_neg (by simpa [nameOf] using free)]
      rfl

/-- An edge between nodes that are there goes behind all others, under the number of edges that
there are between its nodes. -/
theorem addLink_eq {g : Multigraph} {source target : Name} (attributes : Fields)
    (atSource : g.names.contains source = true) (atTarget : g.names.contains target = true)
    (below : ∀ l ∈ g.between source target, ∃ n < (g.between source target).length,
      l.key = nameOf n) :
    g.addLink source target none attributes =
      { g with
        links := g.links ++
          [⟨source, target, nameOf (g.between source target).length, attributes⟩] } := by
  have fresh : ((g.between source target).any fun l =>
      l.key == nameOf (g.between source target).length) = false := by
    rw [List.any_eq_false]
    intro l linked
    obtain ⟨n, bound, key⟩ := below l linked
    rw [key, nameOf_beq, beq_iff_eq]
    omega
  unfold addLink
  simp only [addNode_of_contains atSource, addNode_of_contains atTarget, Option.getD_none,
    newKey_eq below]
  rw [if_neg (by simp [fresh])]

/-! ## Linking the edges of a flow -/

def EndsBelow (count : Nat) (edges : List Edge) : Prop :=
  ∀ e ∈ edges, e.source < count ∧ e.target < count

variable {name : Nat → Name} {count : Nat}

theorem contains_names (apart : TellsApart name count) {g : Multigraph}
    (named : g.names = (List.range count).map name) {i : Nat} (inside : i < count) :
    g.names.contains (name i) = true := by
  rw [named, List.contains_iff_exists_mem_beq]
  exact ⟨name i, List.mem_map_of_mem (List.mem_range.mpr inside), apart.beq_self inside⟩

theorem between_eq (apart : TellsApart name count) {g : Multigraph} {edges : List Edge}
    (below : EndsBelow count edges) (linked : g.links = linksFrom name [] edges) {i j : Nat}
    (atSource : i < count) (atTarget : j < count) :
    g.between (name i) (name j) =
      linksFrom name [] (edges.filter fun e => e.source == i && e.target == j) := by
  unfold between
  rw [linked]
  refine filter_linksFrom (fun e other same => ?_) (fun e member before => ?_) []
  · rw [(eq_of_parallel same).1, (eq_of_parallel same).2]
  · have ends := below e member
    change (name e.source == name i && name e.target == name j) = _
    rw [apart _ ends.1 _ atSource, apart _ ends.2 _ atTarget]

theorem addEdge_eq (apart : TellsApart name count) {g : Multigraph}
    (named : g.names = (List.range count).map name) {earlier : List Edge} {e : Edge}
    (below : EndsBelow count (earlier ++ [e])) (linked : g.links = linksFrom name [] earlier) :
    addEdge name g e = { g with links := linksFrom name [] (earlier ++ [e]) } := by
  have ends := below e (List.mem_append_right _ List.mem_cons_self)
  have before : EndsBelow count earlier := fun other member =>
    below other (List.mem_append_left _ member)
  have along : g.between (name e.source) (name e.target) =
      linksFrom name [] (earlier.filter (parallel e)) :=
    between_eq apart before linked ends.1 ends.2
  have number : (g.between (name e.source) (name e.target)).length =
      earlier.countP (parallel e) := by
    rw [along, length_linksFrom, List.countP_eq_length_filter]
  unfold addEdge
  rw [addLink_eq _ (contains_names apart named ends.1) (contains_names apart named ends.2),
    linksFrom_concat, linked, number]
  · rfl
  · intro l member
    rw [along] at member ⊢
    rw [length_linksFrom]
    simpa only [List.length_nil, Nat.zero_add] using key_of_mem_linksFrom member

theorem foldl_addEdge (apart : TellsApart name count) {g : Multigraph}
    (named : g.names = (List.range count).map name) {earlier edges : List Edge}
    (below : EndsBelow count (earlier ++ edges)) (linked : g.links = linksFrom name [] earlier) :
    edges.foldl (addEdge name) g = { g with links := linksFrom name [] (earlier ++ edges) } := by
  induction edges generalizing g earlier with
  | nil => rw [List.append_nil, ← linked, List.foldl_nil]
  | cons e rest ih =>
      -- The links so far are those of the edges so far, which an edge more keeps true.
      have split : earlier ++ e :: rest = (earlier ++ [e]) ++ rest := List.append_cons ..
      rw [split] at below ⊢
      have first : EndsBelow count (earlier ++ [e]) := fun other member =>
        below other (List.mem_append_left _ member)
      rw [List.foldl_cons, addEdge_eq apart named first linked]
      exact ih (g := ⟨g.nodes, linksFrom name [] (earlier ++ [e])⟩) named below rfl

theorem map_fst_numbered (flow : Flow) :
    (flow.index.addresses.mapIdx fun id address =>
      (nameOf id, ([("address", .int address)] : Fields))).map Prod.fst =
        (List.range flow.nodeCount).map nameOf := by
  refine List.ext_getElem? fun i => ?_
  by_cases inside : i < flow.index.addresses.length <;>
    simp [Flow.nodeCount, AddressIndex.size, inside]

theorem ofFlow_eq {flow : Flow} (below : EndsBelow flow.nodeCount flow.edges) :
    ofFlow flow =
      ⟨flow.index.addresses.mapIdx fun id address => (nameOf id, [("address", .int address)]),
        linksFrom nameOf [] flow.edges⟩ := by
  have inside : EndsBelow flow.nodeCount ([] ++ flow.edges) := below
  exact foldl_addEdge (g := ⟨flow.index.addresses.mapIdx fun id address =>
      (nameOf id, [("address", .int address)]), []⟩)
    (tellsApart_nameOf flow.nodeCount) (map_fst_numbered flow) inside rfl

theorem names_ofFlow {flow : Flow} (below : EndsBelow flow.nodeCount flow.edges) :
    (ofFlow flow).names = (List.range flow.nodeCount).map nameOf := by
  rw [ofFlow_eq below]
  exact map_fst_numbered flow

/-! ## Graphs without loops and under other names -/

def withoutLoops (g : Multigraph) : Multigraph :=
  { g with links := g.links.filter fun l => !(l.source == l.target) }

def renamed (rename : Name → Name) (g : Multigraph) : Multigraph where
  nodes := g.nodes.map fun (name, attributes) => (rename name, attributes)
  links := g.links.map fun l => { l with source := rename l.source, target := rename l.target }

theorem names_renamed (rename : Name → Name) (g : Multigraph) :
    (g.renamed rename).names = g.names.map rename := by
  simp only [names, renamed, List.map_map, Function.comp_def]

def leads (e : Edge) : Bool :=
  e.source != e.target

theorem filter_loops_linksFrom (edges : List Edge) :
    (linksFrom nameOf [] edges).filter (fun l => !(l.source == l.target)) =
      linksFrom nameOf [] (edges.filter leads) := by
  refine filter_linksFrom (fun e other same => ?_) (fun e _ before => ?_) []
  · unfold leads
    rw [(eq_of_parallel same).1, (eq_of_parallel same).2]
  · exact congrArg (!·) (nameOf_beq e.source e.target)

theorem map_linksFrom {rename : Name → Name} (renames : ∀ i, rename (nameOf i) = name i)
    (earlier edges : List Edge) :
    ((linksFrom nameOf earlier edges).map fun l =>
      { l with source := rename l.source, target := rename l.target }) =
        linksFrom name earlier edges := by
  induction edges generalizing earlier with
  | nil => rfl
  | cons e rest ih => simp only [linksFrom, List.map_cons, linkOf, renames, ih]

def leaving (g : Multigraph) (source : Name) : List Link :=
  g.links.filter fun l => l.source == source

theorem leaving_eq (apart : TellsApart name count) {g : Multigraph} {edges : List Edge}
    (below : EndsBelow count edges) (linked : g.links = linksFrom name [] edges) {i : Nat}
    (inside : i < count) :
    g.leaving (name i) = linksFrom name [] (edges.filter fun e => e.source == i) := by
  unfold leaving
  rw [linked]
  refine filter_linksFrom (fun e other same => ?_) (fun e member before => ?_) []
  · rw [(eq_of_parallel same).1]
  · exact apart _ (below e member).1 _ inside

theorem between_eq_filter_leaving (g : Multigraph) (source target : Name) :
    g.between source target = (g.leaving source).filter fun l => l.target == target := by
  unfold between leaving
  rw [List.filter_filter]
  exact List.filter_congr fun l _ => Bool.and_comm ..

/-- Graphs with the same nodes and the same links from every node have their edges in the same
order. -/
theorem orderedLinks_congr {g h : Multigraph} (names : g.names = h.names)
    (same : ∀ source ∈ g.names, g.leaving source = h.leaving source) :
    g.orderedLinks = h.orderedLinks := by
  unfold orderedLinks
  rw [← names]
  refine List.flatMap_congr fun source member => ?_
  have targets : g.targets source = h.targets source := by
    unfold targets
    exact congrArg (List.foldl _ []) (same source member)
  rw [targets]
  refine List.flatMap_congr fun target _ => ?_
  rw [between_eq_filter_leaving, between_eq_filter_leaving, same source member]

end FlowCorpus.Exchange.Multigraph
