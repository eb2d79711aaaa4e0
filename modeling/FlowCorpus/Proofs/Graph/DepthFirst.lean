import FlowCorpus.Graph.Walk
import FlowCorpus.Proofs.Graph.Transfer
import Mathlib.Data.Set.Card
import Mathlib.Logic.Relation

/-!
# Depth-first search

A depth-first search step by step: the next node that it meets is the first one not met before to
which an edge leads from the node met last, or from the one before it when there is none, and so on.
The preorder of a flow is such a search from its first step to its last one, and what it meets are
the nodes that can be reached from its start.
-/

set_option autoImplicit false

namespace FlowCorpus.Graph.Flow

def Leads (flow : Flow) (node next : Nat) : Prop :=
  ∃ e ∈ flow.edges, e.source = node ∧ e.target = next

def Reaches (flow : Flow) : Nat → Nat → Prop :=
  Relation.ReflTransGen flow.Leads

/-- The target of the first edge out of a node that leads to one not met yet. -/
def fresh? (flow : Flow) (met : List Nat) (node : Nat) : Option Nat :=
  (flow.edges.find? fun e => e.source == node && !met.contains e.target).map Edge.target

/-- The node that a search meets next: from the node met last that leads to one not met yet. -/
def next? (flow : Flow) (met : List Nat) : Option Nat :=
  met.reverse.findSome? (flow.fresh? met)

/-- One step of a search, which has met some nodes in order and now meets one more. -/
def Meets (flow : Flow) (met later : List Nat) : Prop :=
  ∃ node, flow.next? met = some node ∧ later = met ++ [node]

def Searches (flow : Flow) : List Nat → List Nat → Prop :=
  Relation.ReflTransGen flow.Meets

def DepthFirst (flow : Flow) (start : Nat) (met : List Nat) : Prop :=
  flow.Searches [start] met

variable {flow : Flow}

/-! ## Successors -/

theorem find?_foldl_firsts (p : Nat → Bool) (items seen : List Nat) :
    (items.foldl (fun seen item => if seen.contains item then seen else seen ++ [item])
      seen).find? p = (seen.find? p).or (items.find? p) := by
  induction items generalizing seen with
  | nil => simp
  | cons item rest ih =>
      rw [List.foldl_cons, ih]
      by_cases known : item ∈ seen
      · by_cases chosen : p item
        · obtain ⟨first, found⟩ := Option.isSome_iff_exists.mp
            (List.find?_isSome.mpr ⟨item, known, chosen⟩)
          simp [known, found]
        · simp [known, chosen]
      · by_cases chosen : p item <;> simp [known, chosen, List.find?_append]

theorem find?_successors (p : Nat → Bool) (node : Nat) :
    (flow.successors node).find? p =
      (flow.edges.find? fun e => e.source == node && p e.target).map Edge.target := by
  unfold successors
  rw [find?_foldl_firsts, List.find?_nil, Option.none_or, List.find?_map, List.find?_filter]
  simp only [Function.comp_apply, Bool.decide_and, Bool.decide_eq_true]

theorem fresh?_eq (met : List Nat) (node : Nat) :
    flow.fresh? met node = (flow.successors node).find? fun next => !met.contains next :=
  (find?_successors (fun next => !met.contains next) node).symm

theorem mem_successors {node next : Nat} : next ∈ flow.successors node ↔ flow.Leads node next := by
  calc next ∈ flow.successors node
      ↔ ((flow.successors node).find? (· == next)).isSome := by simp
    _ ↔ (flow.edges.find? fun e => e.source == node && e.target == next).isSome := by
        rw [find?_successors, Option.isSome_map]
    _ ↔ flow.Leads node next := by simp [Leads]

/-! ## Steps -/

def Done (flow : Flow) (met : List Nat) (node : Nat) : Prop :=
  ∀ next, flow.Leads node next → next ∈ met

theorem Done.mono {met later : List Nat} (more : met ⊆ later) {node : Nat}
    (done : flow.Done met node) : flow.Done later node :=
  fun next leads => more (done next leads)

theorem fresh?_eq_none_iff {met : List Nat} {node : Nat} :
    flow.fresh? met node = none ↔ flow.Done met node := by
  simp only [fresh?, Option.map_eq_none_iff, List.find?_eq_none, Bool.and_eq_true, beq_iff_eq,
    Bool.not_eq_true', List.contains_eq_mem, decide_eq_false_iff_not, not_and, not_not]
  exact ⟨fun each _ ⟨e, member, leaves, same⟩ => same ▸ each e member leaves,
    fun done e member leaves => done e.target ⟨e, member, leaves, rfl⟩⟩

theorem leads_of_fresh? {met : List Nat} {node next : Nat}
    (fresh : flow.fresh? met node = some next) : flow.Leads node next ∧ next ∉ met := by
  obtain ⟨e, found, rfl⟩ := Option.map_eq_some_iff.mp fresh
  have chosen := List.find?_some found
  simp only [Bool.and_eq_true, beq_iff_eq, Bool.not_eq_true', List.contains_eq_mem,
    decide_eq_false_iff_not] at chosen
  exact ⟨⟨e, List.mem_of_find?_eq_some found, chosen.1, rfl⟩, chosen.2⟩

theorem next?_eq_none_iff {met : List Nat} :
    flow.next? met = none ↔ ∀ node ∈ met, flow.Done met node := by
  simp [next?, List.findSome?_eq_none_iff, fresh?_eq_none_iff]

theorem leads_of_next? {met : List Nat} {next : Nat} (found : flow.next? met = some next) :
    (∃ node ∈ met, flow.Leads node next) ∧ next ∉ met := by
  obtain ⟨node, member, fresh⟩ := List.exists_of_findSome?_eq_some found
  have leads := leads_of_fresh? fresh
  exact ⟨⟨node, List.mem_reverse.mp member, leads.1⟩, leads.2⟩

/-- The nodes met since a node are done, so the search goes on from that node: to its first
successor behind those already tried. -/
theorem next?_eq_some {met before since tried rest : List Nat} {node next : Nat}
    (shape : met = before ++ node :: since) (done : ∀ other ∈ since, flow.Done met other)
    (successors : flow.successors node = tried ++ next :: rest) (old : tried ⊆ met)
    (new : next ∉ met) : flow.next? met = some next := by
  have passed : since.reverse.findSome? (flow.fresh? met) = none := by
    rw [List.findSome?_eq_none_iff]
    exact fun other member => fresh?_eq_none_iff.mpr (done other (List.mem_reverse.mp member))
  have skipped : tried.find? (fun next => !met.contains next) = none := by
    rw [List.find?_eq_none]
    intro other member
    simpa using old member
  have chosen : flow.fresh? met node = some next := by
    rw [fresh?_eq, successors, List.find?_append, skipped, Option.none_or,
      List.find?_cons_of_pos (by simpa using new)]
  have order : met.reverse = since.reverse ++ node :: before.reverse := by simp [shape]
  rw [next?, order, List.findSome?_append, passed, Option.none_or, List.findSome?_cons, chosen]

/-! ## What a search has met -/

structure Apart (flow : Flow) (met : List Nat) : Prop where
  nodup : met.Nodup
  inside : ∀ node ∈ met, node < flow.nodeCount

def Closed (flow : Flow) : Prop :=
  ∀ e ∈ flow.edges, e.target < flow.nodeCount

theorem closed_build {f : Program.Function} {minBlocks : Int}
    (built : build f minBlocks = some flow) : flow.Closed :=
  fun _ member => (edges_below_build built member).2

theorem Apart.concat {met : List Nat} (apart : flow.Apart met) {node : Nat} (new : node ∉ met)
    (inside : node < flow.nodeCount) : flow.Apart (met ++ [node]) where
  nodup := by simpa using apart.nodup.concat new
  inside := by
    intro other member
    rcases List.mem_append.mp member with old | last
    · exact apart.inside other old
    · exact List.mem_singleton.mp last ▸ inside

theorem Apart.singleton {node : Nat} (inside : node < flow.nodeCount) : flow.Apart [node] where
  nodup := List.nodup_singleton node
  inside := fun _ member => List.mem_singleton.mp member ▸ inside

theorem Apart.length_lt {met : List Nat} (apart : flow.Apart met) {node : Nat} (new : node ∉ met)
    (inside : node < flow.nodeCount) : met.length < flow.nodeCount := by
  have more := apart.concat new inside
  have below : met ++ [node] ⊆ List.range flow.nodeCount :=
    fun other member => List.mem_range.mpr (more.inside other member)
  simpa using (List.subperm_of_subset more.nodup below).length_le

theorem Apart.meets (closed : flow.Closed) {met later : List Nat} (apart : flow.Apart met)
    (step : flow.Meets met later) : flow.Apart later := by
  obtain ⟨next, found, rfl⟩ := step
  obtain ⟨⟨node, _, e, member, _, rfl⟩, new⟩ := leads_of_next? found
  exact apart.concat new (closed e member)

theorem Apart.searches (closed : flow.Closed) {met later : List Nat} (apart : flow.Apart met)
    (run : flow.Searches met later) : flow.Apart later := by
  induction run with
  | refl => exact apart
  | tail _ step ih => exact ih.meets closed step

/-! ## The preorder is a search -/

/-- A search has entered a node behind some others, and is done with all that it met since. -/
structure Entered (flow : Flow) (before : List Nat) (node : Nat) (since : List Nat) : Prop where
  run : flow.Searches (before ++ [node]) (before ++ node :: since)
  done : ∀ other ∈ since, flow.Done (before ++ node :: since) other

theorem Entered.apart (closed : flow.Closed) {before since : List Nat} {node : Nat}
    (entered : flow.Entered before node since) (apart : flow.Apart (before ++ [node])) :
    flow.Apart (before ++ node :: since) :=
  apart.searches closed entered.run

/-- The search goes on to a successor that is new, and all that is met from there is met since. -/
theorem Entered.append {before since more tried rest : List Nat} {node next : Nat}
    (entered : flow.Entered before node since)
    (split : flow.successors node = tried ++ next :: rest)
    (old : tried ⊆ before ++ node :: since) (new : next ∉ before ++ node :: since)
    (further : flow.Entered (before ++ node :: since) next more)
    (finished : flow.Done (before ++ node :: since ++ next :: more) next) :
    flow.Entered before node (since ++ next :: more) := by
  have shape : before ++ node :: since ++ next :: more =
      before ++ node :: (since ++ next :: more) := by simp
  have found := next?_eq_some rfl entered.done split old new
  have run := further.run
  have done := further.done
  rw [shape] at run done finished
  refine ⟨(entered.run.tail ⟨next, found, rfl⟩).trans run, fun other member => ?_⟩
  rcases List.mem_append.mp member with earlier | later
  · refine (entered.done other earlier).mono ?_
    exact shape ▸ List.subset_append_left _ _
  · rcases List.mem_cons.mp later with rfl | later
    · exact finished
    · exact done other later

theorem enter_of_mem {successors : Nat → List Nat} {depth node : Nat} {met : List Nat}
    (known : node ∈ met) : enter successors depth met node = met := by
  cases depth with
  | zero => rfl
  | succ depth => simp [enter, known]

/-- To enter a node is to search on from it until the node itself is done. -/
def Enters (flow : Flow) (depth : Nat) (met : List Nat) (node : Nat) : Prop :=
  ∃ since, enter flow.successors depth met node = met ++ node :: since ∧
    flow.Entered met node since ∧ flow.Done (met ++ node :: since) node

theorem foldl_enter (closed : flow.Closed) {depth node : Nat} {before : List Nat}
    (enters : ∀ {met next}, flow.Apart met → flow.nodeCount ≤ depth + met.length →
      next < flow.nodeCount → next ∉ met → flow.Enters depth met next)
    (apart : flow.Apart (before ++ [node])) (deep : flow.nodeCount ≤ depth + before.length + 1)
    {tried rest since : List Nat} (split : flow.successors node = tried ++ rest)
    (old : tried ⊆ before ++ node :: since) (entered : flow.Entered before node since) :
    ∃ more, rest.foldl (enter flow.successors depth) (before ++ node :: since) =
        before ++ node :: more ∧
      flow.Entered before node more ∧ flow.Done (before ++ node :: more) node := by
  -- on the successors still to try, with those tried before among the nodes met
  induction rest generalizing tried since with
  | nil =>
      refine ⟨since, rfl, entered, fun next leads => old ?_⟩
      simpa [split] using mem_successors.mpr leads
  | cons next rest ih =>
      have further : flow.successors node = (tried ++ [next]) ++ rest := by simp [split]
      rw [List.foldl_cons]
      by_cases known : next ∈ before ++ node :: since
      · rw [enter_of_mem known]
        exact ih further (List.append_subset.mpr ⟨old, by simpa using known⟩) entered
      · obtain ⟨e, member, _, target⟩ : flow.Leads node next :=
          mem_successors.mp (by simp [split])
        have long : flow.nodeCount ≤ depth + (before ++ node :: since).length := by
          simp only [List.length_append, List.length_cons]
          omega
        obtain ⟨more, same, within, finished⟩ :=
          enters (entered.apart closed apart) long (target ▸ closed e member) known
        have shape : before ++ node :: since ++ next :: more =
            before ++ node :: (since ++ next :: more) := by simp
        rw [same, shape]
        refine ih further ?_ (entered.append split old known within finished)
        rw [← shape]
        exact List.append_subset.mpr
          ⟨List.subset_append_of_subset_left _ old, by simp⟩

/-- Fuel for all nodes not met yet is enough to enter one of them. -/
theorem enters_of_deep (closed : flow.Closed) {depth : Nat} {met : List Nat} {node : Nat}
    (apart : flow.Apart met) (deep : flow.nodeCount ≤ depth + met.length)
    (inside : node < flow.nodeCount) (new : node ∉ met) : flow.Enters depth met node := by
  -- on the fuel, of which every node that is entered takes one and adds one to the nodes met
  induction depth generalizing met node with
  | zero =>
      have short := apart.length_lt new inside
      omega
  | succ depth ih =>
      have first : enter flow.successors (depth + 1) met node =
          (flow.successors node).foldl (enter flow.successors depth) (met ++ [node]) := by
        simp [enter, new]
      have begun : flow.Entered met node [] :=
        ⟨.refl, fun _ member => absurd member List.not_mem_nil⟩
      have none_tried : flow.successors node = [] ++ flow.successors node := rfl
      unfold Enters
      rw [first]
      exact foldl_enter closed ih (apart.concat new inside) (by omega) none_tried
        (List.nil_subset _) begun

/-- The preorder of a flow is a depth-first search that has come to its end. -/
theorem depthFirst_preorder (closed : flow.Closed) {start : Nat} (inside : start < flow.nodeCount) :
    flow.DepthFirst start (flow.preorder start) ∧ flow.next? (flow.preorder start) = none := by
  have nothing : flow.Apart [] := ⟨List.nodup_nil, fun _ member => absurd member List.not_mem_nil⟩
  obtain ⟨since, same, entered, finished⟩ :=
    enters_of_deep closed nothing (Nat.le_refl _) inside List.not_mem_nil
  have order : flow.preorder start = start :: since := same
  rw [order]
  refine ⟨entered.run, next?_eq_none_iff.mpr fun node member => ?_⟩
  rcases List.mem_cons.mp member with rfl | member
  · exact finished
  · exact entered.done node member

/-! ## What a search reaches -/

theorem DepthFirst.reaches {start : Nat} {met : List Nat} (search : flow.DepthFirst start met) :
    ∀ node ∈ met, flow.Reaches start node := by
  induction search with
  | refl =>
      intro node member
      rw [List.mem_singleton.mp member]
      exact .refl
  | tail _ step ih =>
      obtain ⟨next, found, rfl⟩ := step
      obtain ⟨⟨node, earlier, leads⟩, _⟩ := leads_of_next? found
      intro other member
      rcases List.mem_append.mp member with old | last
      · exact ih other old
      · exact List.mem_singleton.mp last ▸ (ih node earlier).tail leads

theorem DepthFirst.eq_cons {start : Nat} {met : List Nat} (search : flow.DepthFirst start met) :
    ∃ since, met = start :: since := by
  induction search with
  | refl => exact ⟨[], rfl⟩
  | tail _ step ih =>
      obtain ⟨since, rfl⟩ := ih
      obtain ⟨next, _, rfl⟩ := step
      exact ⟨since ++ [next], rfl⟩

/-- A search that has come to its end has met all nodes that can be reached. -/
theorem DepthFirst.mem_iff_reaches {start : Nat} {met : List Nat}
    (search : flow.DepthFirst start met) (ended : flow.next? met = none) (node : Nat) :
    node ∈ met ↔ flow.Reaches start node := by
  refine ⟨search.reaches node, fun reaches => ?_⟩
  induction reaches with
  | refl =>
      obtain ⟨since, rfl⟩ := search.eq_cons
      exact List.mem_cons_self
  | tail _ leads ih => exact next?_eq_none_iff.mp ended _ ih _ leads

theorem DepthFirst.nodup (closed : flow.Closed) {start : Nat} (inside : start < flow.nodeCount)
    {met : List Nat} (search : flow.DepthFirst start met) : met.Nodup :=
  ((Apart.singleton inside).searches closed search).nodup

theorem DepthFirst.inside (closed : flow.Closed) {start : Nat} (inside : start < flow.nodeCount)
    {met : List Nat} (search : flow.DepthFirst start met) : ∀ node ∈ met, node < flow.nodeCount :=
  ((Apart.singleton inside).searches closed search).inside

theorem DepthFirst.length_eq (closed : flow.Closed) {start : Nat} (inside : start < flow.nodeCount)
    {met : List Nat} (search : flow.DepthFirst start met) (ended : flow.next? met = none) :
    met.length = {node | flow.Reaches start node}.ncard := by
  have same : {node | flow.Reaches start node} = met.toFinset := by
    ext node
    simp [← search.mem_iff_reaches ended node]
  rw [same, Set.ncard_coe_finset, List.toFinset_card_of_nodup (search.nodup closed inside)]

/-! ## Walks -/

/-- The nodes on a walk of at most some length from a start: the first ones of a depth-first
search, as many as there are up to that length. -/
structure Walks (flow : Flow) (length : Int) (start : Nat) (nodes : List Nat) : Prop where
  initial : ∃ order, flow.DepthFirst start order ∧ flow.next? order = none ∧ nodes <+: order
  nodup : nodes.Nodup
  count : (nodes.length : Int) = min (max length 0) {node | flow.Reaches start node}.ncard
  first : 0 < length → nodes.head? = some start
  covers : ({node | flow.Reaches start node}.ncard : Int) ≤ length →
    ∀ node, node ∈ nodes ↔ flow.Reaches start node

theorem walks_walk (closed : flow.Closed) {start : Nat} (inside : start < flow.nodeCount)
    (length : Int) : flow.Walks length start (flow.walk length start) := by
  obtain ⟨search, ended⟩ := depthFirst_preorder closed inside
  have total := search.length_eq closed inside ended
  have early : flow.walk length start <+: flow.preorder start := List.take_prefix ..
  refine ⟨⟨_, search, ended, early⟩, early.sublist.nodup (search.nodup closed inside), ?_, ?_, ?_⟩
  · rw [walk, List.length_take, total]
    omega
  · intro positive
    obtain ⟨since, order⟩ := search.eq_cons
    obtain ⟨less, same⟩ : ∃ less, length.toNat = less + 1 := ⟨length.toNat - 1, by omega⟩
    rw [walk, order, same, List.take_succ_cons, List.head?_cons]
  · intro long node
    rw [walk, List.take_of_length_le (by omega), search.mem_iff_reaches ended]

end FlowCorpus.Graph.Flow
