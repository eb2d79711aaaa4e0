import FlowCorpus.Graph.CallTree
import Mathlib.Data.List.Basic
import Mathlib.Data.List.Indexes
import Mathlib.Data.List.Induction
import Mathlib.Data.List.Nodup

/-!
# The shape of a call tree

A call tree grows by links: every new node comes with the one call that leads to it, from a node
that is there already. The tree of a record and of one hop on is such a tree, of height two, and the
callees of a callee hang from the first node of the record and its callees that bears its name.
-/

set_option autoImplicit false

namespace FlowCorpus.Graph.CallTree

open FlowCorpus.Program

/-- A node other than the root: the node that calls it, and its name. -/
structure Link where
  caller : Nat
  name : String

/-- The tree of a root to which links were added one after the other. -/
def ofLinks (name : String) (links : List Link) : CallTree where
  names := name :: links.map Link.name
  calls := links.mapIdx fun i link => ⟨link.caller, i + 1⟩

def callsTo (tree : CallTree) (target : Nat) : List Call :=
  tree.calls.filter fun call => call.target == target

/-- So many calls lead from the root to a node. -/
inductive AtDepth (tree : CallTree) : Nat → Nat → Prop where
  | root : AtDepth tree 0 0
  | call {depth : Nat} {call : Call} : call ∈ tree.calls → AtDepth tree depth call.source →
      AtDepth tree (depth + 1) call.target

/-- The calls make a tree of the nodes, with its root at the first one: nothing calls the root,
every other node is called once, by an earlier node, and is reached in a bounded number of calls. -/
structure IsTree (tree : CallTree) (height : Nat) : Prop where
  rooted : 0 < tree.names.length
  uncalled : tree.callsTo 0 = []
  called : ∀ node, 0 < node → node < tree.names.length →
    ∃ caller < node, tree.callsTo node = [⟨caller, node⟩]
  inside : ∀ call ∈ tree.calls,
    call.source < tree.names.length ∧ call.target < tree.names.length
  reached : ∀ node < tree.names.length, ∃ depth ≤ height, tree.AtDepth depth node

/-! ## The calls of a tree -/

variable {tree : CallTree}

/-- The calls of the first nodes are those with a source among them. -/
theorem flatMap_callsFrom_perm (tree : CallTree) (bound : Nat) :
    ((List.range bound).flatMap tree.callsFrom).Perm
      (tree.calls.filter fun call => call.source < bound) := by
  induction bound with
  | zero => simp
  | succ bound ih =>
      have low : (tree.calls.filter fun call => call.source < bound + 1).filter
          (fun call => call.source < bound) =
            tree.calls.filter fun call => call.source < bound := by
        rw [List.filter_filter]
        exact List.filter_congr fun call _ => by simp; omega
      have top : (tree.calls.filter fun call => call.source < bound + 1).filter
          (fun call => !decide (call.source < bound)) = tree.callsFrom bound := by
        rw [List.filter_filter]
        exact List.filter_congr fun call _ => by
          rw [Bool.eq_iff_iff]
          simp
          omega
      rw [List.range_succ, List.flatMap_append, List.flatMap_singleton]
      refine (ih.append_right _).trans ?_
      rw [← low, ← top]
      exact List.filter_append_perm ..

/-- No call is lost when the calls are put in the order of their sources. -/
theorem IsTree.orderedCalls_perm {height : Nat} (isTree : tree.IsTree height) :
    tree.orderedCalls.Perm tree.calls := by
  have all : (tree.calls.filter fun call => call.source < tree.names.length) = tree.calls :=
    List.filter_eq_self.mpr fun call made => by simpa using (isTree.inside call made).1
  exact all ▸ flatMap_callsFrom_perm tree tree.names.length

theorem IsTree.nodup_calls {height : Nat} (isTree : tree.IsTree height) : tree.calls.Nodup := by
  refine List.nodup_iff_count_le_one.mpr fun call => ?_
  by_cases made : call ∈ tree.calls
  -- equal calls would both be among the calls to their target, of which there is one
  · have stands : call ∈ tree.callsTo call.target := List.mem_filter.mpr ⟨made, by simp⟩
    have positive : 0 < call.target := by
      refine Nat.pos_of_ne_zero fun zero => ?_
      rw [zero, isTree.uncalled] at stands
      exact List.not_mem_nil stands
    obtain ⟨caller, _, single⟩ := isTree.called call.target positive (isTree.inside call made).2
    calc tree.calls.count call
        = (tree.callsTo call.target).count call := (List.count_filter (by simp)).symm
      _ ≤ (tree.callsTo call.target).length := List.count_le_length
      _ = 1 := by rw [single, List.length_singleton]
  · exact Nat.le_succ_of_le (Nat.le_of_eq (List.count_eq_zero.mpr made))

/-! ## Trees of links -/

variable {name : String}

theorem ofLinks_concat (links : List Link) (link : Link) :
    ofLinks name (links ++ [link]) =
      ⟨(ofLinks name links).names ++ [link.name],
        (ofLinks name links).calls ++ [⟨link.caller, links.length + 1⟩]⟩ := by
  simp [ofLinks]

theorem addCalls_ofLinks (links : List Link) (caller : Nat) (callees : List String) :
    (ofLinks name links).addCalls caller callees =
      ofLinks name (links ++ callees.map (Link.mk caller)) := by
  have names : callees = (callees.map (Link.mk caller)).map Link.name := by
    simp [Function.comp_def]
  simp only [addCalls, ofLinks, CallTree.mk.injEq, List.map_append, List.cons_append, ← names,
    List.mapIdx_append, List.length_cons, List.length_map, true_and]
  congr 1
  refine List.ext_getElem (by simp) fun i _ _ => ?_
  simp
  omega

@[simp]
theorem length_names_ofLinks (links : List Link) :
    (ofLinks name links).names.length = links.length + 1 := by
  simp [ofLinks]

@[simp]
theorem length_calls_ofLinks (links : List Link) :
    (ofLinks name links).calls.length = links.length := by
  simp [ofLinks]

theorem getElem?_names_ofLinks (links : List Link) (i : Nat) :
    (ofLinks name links).names[i + 1]? = links[i]?.map Link.name := by
  simp [ofLinks]

theorem mem_calls_ofLinks {links : List Link} {call : Call} :
    call ∈ (ofLinks name links).calls ↔
      ∃ i link, links[i]? = some link ∧ call = ⟨link.caller, i + 1⟩ := by
  simp only [ofLinks, List.mem_iff_getElem?, List.getElem?_mapIdx, Option.map_eq_some_iff]
  grind

theorem callsTo_ofLinks_zero (links : List Link) : (ofLinks name links).callsTo 0 = [] := by
  refine List.filter_eq_nil_iff.mpr fun call made => ?_
  obtain ⟨i, link, _, rfl⟩ := mem_calls_ofLinks.mp made
  simp

theorem callsTo_ofLinks_succ {links : List Link} {i : Nat} {link : Link}
    (stands : links[i]? = some link) :
    (ofLinks name links).callsTo (i + 1) = [⟨link.caller, i + 1⟩] := by
  obtain ⟨inside, _⟩ := List.getElem?_eq_some_iff.mp stands
  -- from the last link backwards: its node is the only one with a number of that size
  induction links using List.reverseRecOn with
  | nil => simp at inside
  | append_singleton links last ih =>
      unfold callsTo at ih ⊢
      rw [ofLinks_concat, List.filter_append]
      by_cases before : i < links.length
      · rw [List.getElem?_append_left before] at stands
        have later : links.length ≠ i := by omega
        have reached := ih stands before (List.getElem?_eq_some_iff.mp stands).2
        simp [reached, later]
      · have here : i = links.length := by simp at inside; omega
        subst here
        have same : last = link := by simpa using stands
        have none : (ofLinks name links).calls.filter
            (fun call => call.target == links.length + 1) = [] := by
          refine List.filter_eq_nil_iff.mpr fun call made => ?_
          obtain ⟨j, other, found, rfl⟩ := mem_calls_ofLinks.mp made
          obtain ⟨early, _⟩ := List.getElem?_eq_some_iff.mp found
          simp
          omega
        rw [none, same]
        simp

theorem node_of_link {links : List Link} {i : Nat} {link : Link} (stands : links[i]? = some link) :
    (ofLinks name links).names[i + 1]? = some link.name ∧
      (ofLinks name links).callsTo (i + 1) = [⟨link.caller, i + 1⟩] := by
  refine ⟨?_, callsTo_ofLinks_succ stands⟩
  rw [getElem?_names_ofLinks, stands, Option.map_some]

theorem atDepth_of_link {links : List Link} {i depth : Nat} {link : Link}
    (stands : links[i]? = some link) (caller : (ofLinks name links).AtDepth depth link.caller) :
    (ofLinks name links).AtDepth (depth + 1) (i + 1) := by
  have made : (⟨link.caller, i + 1⟩ : Call) ∈ (ofLinks name links).calls :=
    mem_calls_ofLinks.mpr ⟨i, link, stands, rfl⟩
  exact .call made caller

/-- Links from the root, and links from the root or from a node that it calls, make a tree of height
two. -/
theorem isTree_ofLinks {near far : List Link} (first : ∀ link ∈ near, link.caller = 0)
    (second : ∀ link ∈ far, link.caller ≤ near.length) :
    (ofLinks name (near ++ far)).IsTree 2 := by
  have early {i : Nat} (inside : i < near.length) {link : Link}
      (stands : (near ++ far)[i]? = some link) : link.caller = 0 := by
    rw [List.getElem?_append_left inside] at stands
    exact first link (List.mem_of_getElem? stands)
  have late {i : Nat} (outside : near.length ≤ i) {link : Link}
      (stands : (near ++ far)[i]? = some link) : link.caller ≤ near.length := by
    rw [List.getElem?_append_right outside] at stands
    exact second link (List.mem_of_getElem? stands)
  have link_at {i : Nat} (inside : i < (near ++ far).length) :
      ∃ link, (near ++ far)[i]? = some link := ⟨_, List.getElem?_eq_getElem inside⟩
  have backward {i : Nat} {link : Link} (stands : (near ++ far)[i]? = some link) :
      link.caller ≤ i := by
    rcases Nat.lt_or_ge i near.length with inside | outside
    · exact early inside stands ▸ Nat.zero_le i
    · exact Nat.le_trans (late outside stands) outside
  have called {i : Nat} (inside : i < near.length) :
      (ofLinks name (near ++ far)).AtDepth 1 (i + 1) := by
    obtain ⟨link, stands⟩ := link_at (i := i) (by simp; omega)
    refine atDepth_of_link stands ?_
    rw [early inside stands]
    exact .root
  -- the nodes that a link can name: the root, and those that it calls
  have shallow {node : Nat} (inside : node ≤ near.length) :
      ∃ depth ≤ 1, (ofLinks name (near ++ far)).AtDepth depth node := by
    cases node with
    | zero => exact ⟨0, by omega, .root⟩
    | succ i => exact ⟨1, by omega, called inside⟩
  refine ⟨by simp, callsTo_ofLinks_zero _, fun node positive inside => ?_,
    fun call made => ?_, fun node inside => ?_⟩
  · obtain ⟨i, rfl⟩ := Nat.exists_eq_add_one.mpr positive
    obtain ⟨link, stands⟩ := link_at (i := i) (by simpa using inside)
    exact ⟨link.caller, Nat.lt_succ_of_le (backward stands), callsTo_ofLinks_succ stands⟩
  · obtain ⟨i, link, stands, rfl⟩ := mem_calls_ofLinks.mp made
    obtain ⟨inside, _⟩ := List.getElem?_eq_some_iff.mp stands
    have caller := backward stands
    simp only [length_names_ofLinks]
    omega
  · rcases Nat.lt_or_ge near.length node with deep | near
    · obtain ⟨i, rfl⟩ := Nat.exists_eq_add_one.mpr (Nat.zero_lt_of_lt deep)
      obtain ⟨link, stands⟩ := link_at (i := i) (by simpa using inside)
      obtain ⟨depth, low, caller⟩ := shallow (late (Nat.le_of_lt_succ deep) stands)
      exact ⟨depth + 1, by omega, atDepth_of_link stands caller⟩
    · obtain ⟨depth, low, reached⟩ := shallow near
      exact ⟨depth, by omega, reached⟩

/-! ## One hop -/

def calleesOf (known : String → Option CallRecord) (callee : String) : List String :=
  (known callee).elim [] CallRecord.imports

/-- The first of the nodes of a record and of its callees that bears a name. -/
def sourceOf (record : CallRecord) (name : String) : Nat :=
  (record.name :: record.imports).idxOf name

/-- The node of a callee of a callee: those of the callees before it come first, after the record
and its callees. -/
def hopNode (known : String → Option CallRecord) (record : CallRecord) (before : List String)
    (i : Nat) : Nat :=
  1 + record.imports.length + (before.flatMap (calleesOf known)).length + i

def nearLinks (record : CallRecord) : List Link :=
  record.imports.map (Link.mk 0)

def farLinks (known : String → Option CallRecord) (record : CallRecord) (callee : String) :
    List Link :=
  (calleesOf known callee).map (Link.mk (sourceOf record callee))

structure IsFirst (tree : CallTree) (name : String) (node : Nat) : Prop where
  bears : tree.names[node]? = some name
  smallest : ∀ other < node, tree.names[other]? ≠ some name

/-- A record and its callees in order, and then the callees of every callee whose record is known.
These hang from the first node of the callee's name, which was found in the tree as it then was. -/
structure IsOneHop (known : String → Option CallRecord) (record : CallRecord)
    (tree : CallTree) : Prop where
  size : tree.names.length =
    1 + record.imports.length + (record.imports.flatMap (calleesOf known)).length
  root : tree.names[0]? = some record.name
  callees : ∀ i callee, record.imports[i]? = some callee →
    tree.names[i + 1]? = some callee ∧ tree.callsTo (i + 1) = [⟨0, i + 1⟩]
  hops : ∀ before callee after other, record.imports = before ++ callee :: after →
    known callee = some other → ∀ i name, other.imports[i]? = some name →
      tree.names[hopNode known record before i]? = some name ∧
      tree.callsTo (hopNode known record before i) =
        [⟨sourceOf record callee, hopNode known record before i⟩]
  sources : ∀ callee ∈ record.imports,
    sourceOf record callee ≤ record.imports.length ∧
      tree.IsFirst callee (sourceOf record callee)
  recursion : sourceOf record record.name = 0
  found : ∀ before callee after, record.imports = before ++ callee :: after →
    (before.foldl (addHop known) (ofRecord record)).names.idxOf? callee =
      some (sourceOf record callee)

variable {known : String → Option CallRecord} {record : CallRecord}

theorem ofRecord_eq : ofRecord record = ofLinks record.name (nearLinks record) :=
  addCalls_ofLinks [] 0 record.imports

theorem names_nearLinks (far : List Link) :
    (ofLinks record.name (nearLinks record ++ far)).names =
      (record.name :: record.imports) ++ far.map Link.name := by
  simp [ofLinks, nearLinks, Function.comp_def]

/-- The source of a callee is found whatever was added after the callees. -/
theorem idxOf?_names {callee : String} (member : callee ∈ record.imports) (far : List Link) :
    (ofLinks record.name (nearLinks record ++ far)).names.idxOf? callee =
      some (sourceOf record callee) := by
  have early : callee ∈ record.name :: record.imports := List.mem_cons_of_mem _ member
  rw [names_nearLinks, sourceOf, ← List.idxOf_append_of_mem early, List.idxOf_eq_getD_idxOf?]
  cases found : ((record.name :: record.imports) ++ far.map Link.name).idxOf? callee with
  | none => exact absurd (List.mem_append_left _ early) (List.idxOf?_eq_none_iff.mp found)
  | some node => rfl

theorem addHop_ofLinks {callee : String} (member : callee ∈ record.imports) (far : List Link) :
    addHop known (ofLinks record.name (nearLinks record ++ far)) callee =
      ofLinks record.name (nearLinks record ++ (far ++ farLinks known record callee)) := by
  unfold addHop
  rw [idxOf?_names member]
  cases recorded : known callee with
  | none => simp [farLinks, calleesOf, recorded]
  | some other => simp [addCalls_ofLinks, farLinks, calleesOf, recorded]

theorem foldl_addHop {callees : List String} (members : callees ⊆ record.imports)
    (far : List Link) :
    callees.foldl (addHop known) (ofLinks record.name (nearLinks record ++ far)) =
      ofLinks record.name
        (nearLinks record ++ (far ++ callees.flatMap (farLinks known record))) := by
  -- on the callees still to come; the links in `far` are those of the callees before them
  induction callees generalizing far with
  | nil => simp
  | cons callee rest ih =>
      obtain ⟨member, others⟩ := List.cons_subset.mp members
      rw [List.foldl_cons, addHop_ofLinks member, ih others, List.flatMap_cons, List.append_assoc]

theorem foldl_addHop_ofRecord {callees : List String} (members : callees ⊆ record.imports) :
    callees.foldl (addHop known) (ofRecord record) =
      ofLinks record.name (nearLinks record ++ callees.flatMap (farLinks known record)) := by
  rw [ofRecord_eq, ← List.append_nil (nearLinks record), foldl_addHop members, List.append_nil,
    List.nil_append]

theorem oneHop_eq : oneHop known record =
    ofLinks record.name
      (nearLinks record ++ record.imports.flatMap (farLinks known record)) :=
  foldl_addHop_ofRecord (List.Subset.refl _)

theorem sourceOf_le {callee : String} (member : callee ∈ record.imports) :
    sourceOf record callee ≤ record.imports.length := by
  have inside := List.idxOf_lt_length_of_mem (List.mem_cons_of_mem record.name member)
  exact Nat.lt_succ_iff.mp inside

theorem length_calls_oneHop :
    (oneHop known record).calls.length + 1 = (oneHop known record).names.length := by
  rw [oneHop_eq, length_calls_ofLinks, length_names_ofLinks]

theorem isTree_oneHop (known : String → Option CallRecord) (record : CallRecord) :
    (oneHop known record).IsTree 2 := by
  rw [oneHop_eq]
  refine isTree_ofLinks (fun link member => ?_) fun link member => ?_
  · obtain ⟨callee, _, rfl⟩ := List.mem_map.mp member
    rfl
  · obtain ⟨callee, called, added⟩ := List.mem_flatMap.mp member
    obtain ⟨name, _, rfl⟩ := List.mem_map.mp added
    simpa [nearLinks] using sourceOf_le called

theorem link_at_hopNode {before after : List String} {callee : String}
    (split : record.imports = before ++ callee :: after) {other : CallRecord}
    (recorded : known callee = some other) {i : Nat} {name : String}
    (called : other.imports[i]? = some name) :
    (nearLinks record ++ record.imports.flatMap (farLinks known record))[record.imports.length +
      (before.flatMap (calleesOf known)).length + i]? = some ⟨sourceOf record callee, name⟩ := by
  have earlier : (before.flatMap (farLinks known record)).length =
      (before.flatMap (calleesOf known)).length := by
    simp [List.length_flatMap, farLinks]
  have own : (farLinks known record callee)[i]? = some ⟨sourceOf record callee, name⟩ := by
    simp [farLinks, calleesOf, recorded, called]
  obtain ⟨inside, _⟩ := List.getElem?_eq_some_iff.mp own
  have spread : record.imports.flatMap (farLinks known record) =
      before.flatMap (farLinks known record) ++
        (farLinks known record callee ++ after.flatMap (farLinks known record)) := by
    rw [split, List.flatMap_append, List.flatMap_cons]
  rw [spread, List.getElem?_append_right (by simp [nearLinks]; omega),
    List.getElem?_append_right (by simp [nearLinks, earlier]; omega),
    List.getElem?_append_left (by simp [nearLinks, earlier]; omega), ← own]
  congr 1
  simp [nearLinks, earlier]
  omega

theorem isOneHop_oneHop (known : String → Option CallRecord) (record : CallRecord) :
    IsOneHop known record (oneHop known record) := by
  rw [oneHop_eq]
  refine ⟨?size, rfl, fun i callee called => ?callees,
    fun before callee after other split recorded i name called => ?hops,
    fun callee member => ⟨sourceOf_le member, ?sources⟩, ?recursion,
    fun before callee after split => ?found⟩
  case size =>
    simp [nearLinks, farLinks, List.length_flatMap]
    omega
  case callees =>
    have stands : (nearLinks record ++ record.imports.flatMap (farLinks known record))[i]? =
        some ⟨0, callee⟩ := by
      obtain ⟨inside, _⟩ := List.getElem?_eq_some_iff.mp called
      rw [List.getElem?_append_left (by simpa [nearLinks] using inside)]
      simp [nearLinks, called]
    exact node_of_link stands
  case hops =>
    have stands := link_at_hopNode split recorded called
    have node : hopNode known record before i =
        record.imports.length + (before.flatMap (calleesOf known)).length + i + 1 := by
      unfold hopNode
      omega
    rw [node]
    exact node_of_link stands
  case sources =>
    obtain ⟨inside, bears, smallest⟩ := List.idxOf?_eq_some_iff.mp
      (idxOf?_names member (record.imports.flatMap (farLinks known record)))
    refine ⟨List.getElem?_eq_some_iff.mpr ⟨inside, bears⟩, fun other less same => ?_⟩
    obtain ⟨_, again⟩ := List.getElem?_eq_some_iff.mp same
    exact smallest other less again
  case recursion => exact List.idxOf_cons_self
  case found =>
    have members : before ⊆ record.imports := split ▸ List.subset_append_left ..
    have member : callee ∈ record.imports := by simp [split]
    rw [foldl_addHop_ofRecord members]
    exact idxOf?_names member _

/-- A callee that is called twice has its callees twice, all of them at its first node. -/
example : oneHop (CallRecord.named? [⟨"even", 0, ["odd", "even"]⟩, ⟨"odd", 0, ["even"]⟩])
    ⟨"main", 0, ["odd", "even", "odd"]⟩ =
      ⟨["main", "odd", "even", "odd", "even", "odd", "even", "even"],
        [⟨0, 1⟩, ⟨0, 2⟩, ⟨0, 3⟩, ⟨1, 4⟩, ⟨2, 5⟩, ⟨2, 6⟩, ⟨1, 7⟩]⟩ := by
  decide

end FlowCorpus.Graph.CallTree
