import FlowCorpus.Proofs.Exchange.Entries
import FlowCorpus.Proofs.Exchange.Reading
import FlowCorpus.Proofs.Graph.Transfer

/-!
# Features and the blocks they come from

The features of a flow leave out the nodes at which no block starts, so that those behind such a
node move up. An export compares the numbers of features and nodes first: a graph is exported only
when nothing moved, and every node then has the features of the first block that starts at its
address.
-/

set_option autoImplicit false

namespace FlowCorpus.Feature

open FlowCorpus.Assembly FlowCorpus.Exchange FlowCorpus.Graph FlowCorpus.Json FlowCorpus.Number
open FlowCorpus.Program

theorem appends_vectorOf (scheme : Scheme) (a : Architecture) (b : Block) :
    (vectorOf scheme a b).Appends := by
  unfold vectorOf
  cases counts? scheme a b with
  | some counts => exact Traced.appends_pure _
  | none => exact (Traced.appends_report _).bind fun _ => Traced.appends_pure _

theorem appends_blockFeature (architecture : Option Architecture) (options : FeatureOptions)
    (b : Block) : (blockFeature architecture options b).Appends := by
  unfold blockFeature
  split
  · cases architecture with
    | none => exact Traced.appends_throw _
    | some a => exact (appends_vectorOf _ _ _).bind fun _ => Traced.appends_pure _
  · split
    · exact (Traced.appends_ofExcept _).bind fun _ => Traced.appends_pure _
    · split
      · exact (Traced.appends_ofExcept _).bind fun _ => Traced.appends_pure _
      · exact (Traced.appends_ofExcept _).bind fun _ => Traced.appends_pure _
      · exact (Traced.appends_report _).bind fun _ => Traced.appends_pure _

theorem appends_featuresAt (architecture : Option Architecture) (options : FeatureOptions)
    (f : Function) (addresses : List Int) :
    (featuresAt architecture options f addresses).Appends := by
  induction addresses with
  | nil => exact Traced.appends_pure _
  | cons address rest ih =>
      unfold featuresAt
      cases f.blockAt? address with
      | none => exact ih
      | some b =>
          refine (appends_blockFeature _ _ _).bind fun feature => ?_
          cases feature with
          | none => exact Traced.appends_pure _
          | some feature => exact ih.bind fun _ => Traced.appends_pure _

/-- The features at some addresses are those of the blocks that start there, one for each. -/
theorem featuresAt_some {architecture : Option Architecture} {options : FeatureOptions}
    {f : Function} {addresses : List Int} {features : List NodeFeature}
    (given : (featuresAt architecture options f addresses).result = .ok (some features)) :
    List.Forall₂
      (fun b feature => (blockFeature architecture options b).result = .ok (some feature))
      (addresses.filterMap f.blockAt?) features := by
  induction addresses generalizing features with
  | nil =>
      cases given
      exact .nil
  | cons address rest ih =>
      unfold featuresAt at given
      cases found : f.blockAt? address with
      | none =>
          rw [List.filterMap_cons_none found]
          exact ih (by simpa only [found] using given)
      | some b =>
          rw [List.filterMap_cons_some found]
          simp only [found] at given
          obtain ⟨first, computed, given⟩ := Traced.result_bind_ok (fun feature => by
            cases feature with
            | none => exact Traced.appends_pure _
            | some feature =>
                exact (appends_featuresAt _ _ _ _).bind fun _ => Traced.appends_pure _) given
          cases first with
          | none => cases given
          | some feature =>
              obtain ⟨others, remaining, shape⟩ :=
                Traced.result_bind_ok (fun _ => Traced.appends_pure _) given
              cases others with
              | none => cases shape
              | some others =>
                  cases shape
                  exact .cons computed (ih remaining)

/-- As many features as addresses: a block starts at every address, and the feature at a place is
that of the block at the address there. -/
theorem featuresAt_aligned {architecture : Option Architecture} {options : FeatureOptions}
    {f : Function} {addresses : List Int} {features : List NodeFeature}
    (given : (featuresAt architecture options f addresses).result = .ok (some features))
    (counted : features.length = addresses.length) {id : Nat} {address : Int}
    (placed : addresses[id]? = some address) :
    ∃ b feature, f.blockAt? address = some b ∧ features[id]? = some feature ∧
      (blockFeature architecture options b).result = .ok (some feature) := by
  have computed := featuresAt_some given
  have everywhere := List.filterMap_length_eq_length.mp (computed.length_eq.trans counted)
  obtain ⟨b, found⟩ :=
    Option.isSome_iff_exists.mp (everywhere address (List.mem_of_getElem? placed))
  have stands : (addresses.filterMap f.blockAt?)[id]? = some b := by
    rw [Outcome.getElem?_filterMap everywhere, placed]
    exact found
  obtain ⟨feature, same, made⟩ := Outcome.getElem?_of_forall₂ computed stands
  exact ⟨b, feature, found, same, made⟩

/-! ## The fields of a node -/

def numbered (names : List String) (values : List Binary64) : Fields :=
  List.zipWith (fun name x => (.whole name, .float x)) names values

/-- The fields that a node has from a block: the counts of the block under their names, or one field
with the lines, the vector or the tokens of the block. Lines that are exported in a scheme of counts
have to be numbers. -/
inductive BlockFields (architecture : Option Architecture) (options : FeatureOptions)
    (scheme : Option Scheme) (b : Block) : Fields → Prop where
  | counts {a : Architecture} {names : List String} {counts : List Nat} :
      architecture = some a → options.scheme.fields? = some names →
      counts? options.scheme a b = some counts → counts.length = names.length →
      BlockFields architecture options scheme b (numbered names (counts.map Binary64.ofNat))
  | lines {lines : List String} :
      options.scheme.isTextual = true →
      blockLines (.ok options.scheme) options.maskRegisters b = .ok lines →
      scheme.bind Scheme.fields? = none →
      BlockFields architecture options scheme b
        [("features", .arr (lines.map fun line => .str (.whole line)))]
  | numbers {lines names : List String} {values : List Binary64} :
      options.scheme.isTextual = true →
      blockLines (.ok options.scheme) options.maskRegisters b = .ok lines →
      scheme.bind Scheme.fields? = some names → lines.length = names.length →
      List.Forall₂ (fun line x => readDouble? line.toList = some x) lines values →
      BlockFields architecture options scheme b (numbered names values)
  | vector {model : Embedder} {pooled : Tensor} :
      options.scheme = .embedded → options.embedder = some model →
      embedBlock model b = .ok pooled →
      BlockFields architecture options scheme b [("features", pooled.toValue)]
  | tokens {model : Encoder} {rows : List (List Binary64)} :
      options.scheme = .encoded → options.encoder = some model →
      encodeBlock model options.maskRegisters b = .ok rows →
      scheme.bind Scheme.fields? = none →
      BlockFields architecture options scheme b
        [("features", .arr (rows.map fun row => .arr (row.map .float)))]

section

variable {architecture : Option Architecture} {options : FeatureOptions} {scheme : Option Scheme}
  {b : Block} {fields : Fields}

theorem nameDoubles_ok {scheme : Scheme} {names : List String} {values : List Binary64}
    (named : NodeFeature.nameDoubles scheme names values = .ok fields) :
    values.length = names.length ∧ fields = numbered names values := by
  unfold NodeFeature.nameDoubles at named
  split at named
  · rename_i same
    cases named
    exact ⟨same, List.map_zip_eq_zipWith⟩
  · cases named

/-- The attributes of data are the data as one field, or its elements as numbers under the names of
a scheme of counts. -/
theorem dataAttributes_ok {items : List Value}
    (given : NodeFeature.dataAttributes scheme (.arr items) = .ok fields) :
    (scheme.bind Scheme.fields? = none ∧ fields = ([("features", .arr items)] : Fields)) ∨
      ∃ names values, scheme.bind Scheme.fields? = some names ∧ items.length = names.length ∧
        List.Forall₂ (fun item x => doubleOf item = .ok x) items values ∧
        fields = numbered names values := by
  cases scheme with
  | none =>
      cases given
      exact .inl ⟨rfl, rfl⟩
  | some scheme =>
      unfold NodeFeature.dataAttributes at given
      cases named : scheme.fields? with
      | none =>
          simp only [named] at given
          cases given
          exact .inl ⟨named, rfl⟩
      | some names =>
          simp only [named, Value.elements?] at given
          split at given
          · rename_i counted
            obtain ⟨values, read, made⟩ := Outcome.bind_ok given
            obtain ⟨-, shape⟩ := nameDoubles_ok made
            exact .inr ⟨names, values, named, counted, Outcome.mapM_ok read, shape⟩
          · cases given

theorem blockFields_vector {a : Architecture} {names : List String} {counts : List Nat}
    (known : architecture = some a) (named : options.scheme.fields? = some names)
    (counted : counts? options.scheme a b = some counts)
    (made : NodeFeature.vectorAttributes ⟨options.scheme, counts.map Binary64.ofNat⟩ = .ok fields) :
    BlockFields architecture options scheme b fields := by
  unfold NodeFeature.vectorAttributes at made
  simp only [named] at made
  obtain ⟨same, rfl⟩ := nameDoubles_ok made
  rw [List.length_map] at same
  exact .counts known named counted same

theorem blockFields_lines {lines : List String}
    (textual : options.scheme.isTextual = true)
    (read : blockLines (.ok options.scheme) options.maskRegisters b = .ok lines)
    (made : NodeFeature.dataAttributes scheme (.arr (lines.map fun line => .str (.whole line))) =
      .ok fields) : BlockFields architecture options scheme b fields := by
  rcases dataAttributes_ok made with ⟨unnamed, rfl⟩ | ⟨names, values, named, counted, numbers, rfl⟩
  · exact .lines textual read unnamed
  · rw [List.length_map] at counted
    refine .numbers textual read named counted ?_
    refine (List.forall₂_map_left_iff.mp numbers).imp fun line x same => ?_
    cases number : readDouble? line.toList with
    | none => simp [doubleOf, number] at same
    | some y => simpa [doubleOf, number] using same

theorem blockFields_tokens {model : Encoder} {rows : List (List Binary64)}
    (encoded : options.scheme = .encoded) (given : options.encoder = some model)
    (read : encodeBlock model options.maskRegisters b = .ok rows)
    (made : NodeFeature.dataAttributes scheme (.arr (rows.map NodeFeature.doubles)) = .ok fields) :
    BlockFields architecture options scheme b fields := by
  rcases dataAttributes_ok made with ⟨unnamed, rfl⟩ | ⟨names, values, named, counted, numbers, rfl⟩
  · exact .tokens encoded given read unnamed
  · -- No row of tokens is a number, and no scheme of counts has no names.
    cases rows with
    | nil =>
        obtain ⟨counting, -, known⟩ := Option.bind_eq_some_iff.mp named
        obtain rfl := List.length_eq_zero_iff.mp counted.symm
        cases counting <;> cases known
    | cons row rest =>
        obtain ⟨_, _, number, -⟩ := List.forall₂_cons_left_iff.mp numbers
        cases number

theorem counts?_of_fields? {scheme : Scheme} {names : List String}
    (named : scheme.fields? = some names) (a : Architecture) (b : Block) :
    ∃ counts, counts? scheme a b = some counts := by
  cases scheme <;> first | exact ⟨_, rfl⟩ | cases named

/-- What a block has and an export makes of it are the fields of the block. -/
theorem blockFields_of_attributes {feature : NodeFeature}
    (given : (blockFeature architecture options b).result = .ok (some feature))
    (made : feature.attributes scheme = .ok fields) :
    BlockFields architecture options scheme b fields := by
  unfold blockFeature at given
  split at given
  · rename_i counting
    obtain ⟨names, named⟩ := Option.isSome_iff_exists.mp counting
    cases architecture with
    | none => cases given
    | some a =>
        obtain ⟨v, computed, shape⟩ := Traced.result_bind_ok (fun _ => Traced.appends_pure _) given
        obtain ⟨counts, counted⟩ := counts?_of_fields? named a b
        unfold vectorOf at computed
        rw [counted] at computed
        cases computed
        split at shape <;> cases shape
        exact blockFields_vector rfl named counted made
  · split at given
    · rename_i textual
      obtain ⟨lines, read, shape⟩ := Traced.result_bind_ok (fun _ => Traced.appends_pure _) given
      cases shape
      rw [Traced.result_ofExcept] at read
      exact blockFields_lines textual read made
    · split at given
      · rename_i embedded model
        obtain ⟨pooled, read, shape⟩ := Traced.result_bind_ok (fun _ => Traced.appends_pure _) given
        cases shape
        cases made
        rw [Traced.result_ofExcept] at read
        exact .vector embedded model read
      · rename_i encoded model
        obtain ⟨rows, read, shape⟩ := Traced.result_bind_ok (fun _ => Traced.appends_pure _) given
        cases shape
        rw [Traced.result_ofExcept] at read
        exact blockFields_tokens encoded model read made
      · cases given

end

end FlowCorpus.Feature

namespace FlowCorpus.Exchange.Attributed

open FlowCorpus.Assembly FlowCorpus.Feature FlowCorpus.Graph FlowCorpus.Json FlowCorpus.Program
open FlowCorpus.Number

/-- The block is the first one of a function that starts at an address. -/
def StartsFirst (f : Function) (address : Int) (b : Block) : Prop :=
  b.offset = address ∧ ∃ before behind, f.blocks = before ++ b :: behind ∧
    ∀ earlier ∈ before, earlier.offset ≠ address

theorem startsFirst_of_blockAt? {f : Function} {address : Int} {b : Block}
    (found : f.blockAt? address = some b) : StartsFirst f address b := by
  obtain ⟨starts, before, behind, split, none⟩ := List.find?_eq_some_iff_append.mp found
  exact ⟨by simpa using starts, before, behind, split, by simpa using none⟩

theorem exists_blockAt?_iff {f : Function} {address : Int} :
    (∃ b, f.blockAt? address = some b) ↔ ∃ b ∈ f.blocks, b.offset = address := by
  rw [← Option.isSome_iff_exists, Function.blockAt?, List.find?_isSome]
  simp

theorem blockAt?_eq_none_iff {f : Function} {address : Int} :
    f.blockAt? address = none ↔ ∀ b ∈ f.blocks, b.offset ≠ address := by
  simp [Function.blockAt?]

/-- A feature list that does not leave out a node is exported with every node at its own block: a
node is its number, or its address in two bases, and the fields of the first block there. A list
that leaves out a node is not exported. -/
theorem ofFeatures_first_blocks {architecture : Option Architecture} {options : FeatureOptions}
    {f : Function} {flow : Flow} {features : List NodeFeature}
    (given : (nodeFeatures architecture options f flow).result = .ok (some features))
    (scheme : Option Scheme) (mode : NodeLabel) :
    (∀ exported, (ofFeatures flow (some features) scheme mode).result = .ok (some exported) →
      exported.nodes.length = flow.nodeCount ∧
      ∀ (id : Nat) (address : Int), flow.index.addresses[id]? = some address →
        ∃ b fields, StartsFirst f address b ∧ BlockFields architecture options scheme b fields ∧
          exported.nodes[id]? = some (.obj (("id", match mode with
            | .index => .int id
            | .address => .str (hexText address ++ " / " ++ intText address)) :: fields))) ∧
    ((∃ address ∈ flow.index.addresses, ∀ b ∈ f.blocks, b.offset ≠ address) →
      (ofFeatures flow (some features) scheme mode).result = .ok none) := by
  constructor
  · intro exported accepted
    obtain ⟨attributes, mapped, counted, shape⟩ := ofFeatures_accepted accepted
    have steps := Outcome.mapM_ok mapped
    have nodes : exported.nodes = List.zipWith nodeEntry (labels flow mode) attributes := by
      rw [shape]
      rfl
    refine ⟨by rw [nodes, List.length_zipWith, length_labels, counted, Nat.min_self], ?_⟩
    intro id address placed
    obtain ⟨b, feature, found, stands, computed⟩ :=
      featuresAt_aligned given (steps.length_eq.trans counted) placed
    obtain ⟨own, chosen, made⟩ := Outcome.getElem?_of_forall₂ steps stands
    refine ⟨b, own, startsFirst_of_blockAt? found, blockFields_of_attributes computed made, ?_⟩
    have label : (labels flow mode)[id]? = some (mode.label id address) := by
      simp [labels, placed]
    rw [nodes, List.getElem?_zipWith, label, chosen]
    simp only [Multigraph.nodeEntry_eq (plainNames_attributes made)]
    cases mode <;> rfl
  · rintro ⟨address, member, nowhere⟩
    have short : features.length ≠ flow.nodeCount := by
      intro counted
      obtain ⟨id, placed⟩ := List.mem_iff_getElem?.mp member
      obtain ⟨b, _, found, _⟩ := featuresAt_aligned given counted placed
      obtain ⟨start, inBlocks, same⟩ := exists_blockAt?_iff.mp ⟨b, found⟩
      exact nowhere start inBlocks same
    rw [result_ofFeatures, if_neg short]

def revisited : Function where
  name := "revisited"
  offset := 16
  size := some 32
  blocks := [
    { offset := 32, jump := 16,
      instructions := [{ offset := 32, kind := "mov", disasm := some "mov" }] },
    { offset := 16, jump := 32,
      instructions := [{ offset := 16, kind := "nop", disasm := some "nop" }] },
    { offset := 32, jump := 16,
      instructions := [{ offset := 32, kind := "ret", disasm := some "ret" }] }]

/-- Two blocks at one address, of which the graph has the first one, as a line of text and as
counts; and cases outside of their function, which is not exported. -/
theorem ofFeatures_revisited_switching :
    (∃ flow features exported, Flow.build revisited 1 = some flow ∧
      (nodeFeatures none { scheme := .disasm } revisited flow).result = .ok (some features) ∧
      (ofFeatures flow (some features) (some .disasm) .index).result = .ok (some exported) ∧
      ∃ b fields, StartsFirst revisited 32 b ∧
        BlockFields none { scheme := .disasm } (some .disasm) b fields ∧
        fields = ([("features", .arr [.str (.whole "mov")])] : Fields) ∧
        exported.nodes = [.obj [("id", .int 0), ("features", .arr [.str "mov"])],
          .obj [("id", .int 1), ("features", .arr [.str "nop"])]]) ∧
    (∃ flow features exported, Flow.build revisited 1 = some flow ∧
      (nodeFeatures (some .x86) { scheme := .tiknib } revisited flow).result = .ok (some features) ∧
      (ofFeatures flow (some features) none .address).result = .ok (some exported) ∧
      let names := ["arithshift", "compare", "ctransfer", "ctransfercond", "dtransfer", "float",
        "total"]
      exported.nodes =
        [.obj (("id", .str "0x20 / 32") :: numbered names ([0, 0, 0, 0, 1, 0, 1].map .ofNat)),
          .obj (("id", .str "0x10 / 16") :: numbered names ([0, 0, 0, 0, 0, 0, 1].map .ofNat))]) ∧
    ∃ flow features, Flow.build Flow.switching 1 = some flow ∧
      (nodeFeatures none { scheme := .disasm } Flow.switching flow).result = .ok (some features) ∧
      (ofFeatures flow (some features) (some .disasm) .index).result = .ok none := by
  refine ⟨?_, ?_, ?_⟩
  · have given : (nodeFeatures none { scheme := .disasm } revisited
        ((Flow.build revisited 1).get rfl)).result =
        .ok (some [.lines ["mov"], .lines ["nop"]]) := rfl
    have aligned := (ofFeatures_first_blocks given (some .disasm) .index).1 _ rfl
    obtain ⟨b, fields, starts, described, stands⟩ := aligned.2 0 32 rfl
    refine ⟨_, _, _, rfl, given, rfl, b, fields, starts, described, ?_, rfl⟩
    exact (List.cons.inj (Value.obj.inj (Option.some.inj stands))).2.symm
  · let counted (counts : List Nat) : NodeFeature := .vector ⟨.tiknib, counts.map .ofNat⟩
    exact ⟨(Flow.build revisited 1).get rfl, [counted [0, 0, 0, 0, 1, 0, 1],
      counted [0, 0, 0, 0, 0, 0, 1]], _, rfl, rfl, rfl, rfl⟩
  · have given : (nodeFeatures none { scheme := .disasm } Flow.switching
        ((Flow.build Flow.switching 1).get rfl)).result = .ok (some [.lines [], .lines []]) := rfl
    refine ⟨_, _, rfl, given, ?_⟩
    exact (ofFeatures_first_blocks given (some .disasm) .index).2 ⟨4096, by decide, by decide⟩

end FlowCorpus.Exchange.Attributed
