import EngineHost.Proofs.Kernels
import EngineHost.Proofs.PlanLoading
import EngineHost.Proofs.Tracing

/-!
# When handles can be built

`BuildConfig.buildHandle` refuses in three places: the network is checked, its strings are fitted
into the payload, and the handle checks all its parts, the derived metadata among them. The last
check can not be failed by metadata. Along the layers every axis stays a size or an axis that some
input has, and there are as many of them as the network's own check counts
(`Network.allDims_within`); so what is derived from a sound network is sound
(`NetworkDraft.deriveMetadata_sound`), and a handle is built exactly where the network is sound, its
strings fit, and the names, the platform and the signature are such as a handle may have
(`BuildConfig.Admits`, `BuildConfig.buildHandle_succeeds_iff`). The names are octets throughout, and
need not be texts.
-/

namespace EngineHost

/-! ### Axes along the layers -/

/-- **An axis within a network**: a size, or an axis that an input has. -/
def DimSpec.Within (net : Network) (dim : DimSpec Bytes) : Prop :=
  dim.isStatic = true ∨ ∃ i ∈ net.inputs, dim.input = i.name ∧ 0 ≤ dim.axis ∧
    dim.axis.toNatClampNeg < i.min.length

/-- As many axes as a value has, and a property of each. -/
def Ranked (P : α → Prop) (rank : Nat) (axes : List α) : Prop :=
  axes.length = rank ∧ ∀ axis ∈ axes, P axis

/-- A layer gives its value as many axes as its rank rule says, and takes them from its operand. -/
theorem Layer.axes_ranked {P : α → Prop} {ranks : Ranks} {dims : List (Bytes × List α)}
    (hmatch : Matches (Ranked P) ranks dims) {l : Layer} {r : Nat} (hrank : LayerRank ranks l r) :
    Ranked P r (l.axes ((dims.lookup (l.operands.headD [])).getD [])) := by
  -- The axes come from the first operand, as the rank does; only two families change their number.
  cases hrank with
  | unary hop hfamily hargs ha =>
    obtain ⟨axes, haxes, hranked⟩ := hmatch.lookup ha
    rw [hargs, List.headD_cons, haxes, Option.getD_some, Layer.axes, hop]
    rcases hfamily with rfl | rfl | rfl <;> exact hranked
  | binary hop hfamily hargs ha _ =>
    obtain ⟨axes, haxes, hranked⟩ := hmatch.lookup ha
    rw [hargs, List.headD_cons, haxes, Option.getD_some, Layer.axes, hop]
    rcases hfamily with rfl | rfl <;> exact hranked
  | reduceSum hop hargs ha _ hlast =>
    obtain ⟨axes, haxes, hlen, hall⟩ := hmatch.lookup ha
    rw [hargs, List.headD_cons, haxes, Option.getD_some, Layer.axes, hop]
    -- The axis that is summed is one of the operand's, so taking it out leaves one fewer.
    refine ⟨?_, fun axis hmem => hall axis (List.mem_of_mem_eraseIdx hmem)⟩
    rw [List.length_eraseIdx_of_lt (by omega), hlen, Nat.add_sub_cancel]
  | transpose hop hargs ha hr =>
    obtain ⟨axes, haxes, hlen, hall⟩ := hmatch.lookup ha
    rw [hargs, List.headD_cons, haxes, Option.getD_some, Layer.axes, hop]
    -- The rank rule asks for two axes at least, so there are two to exchange.
    obtain ⟨front, a, b, rfl⟩ := exists_append_pair (hlen ▸ hr)
    change Ranked P r (swapLast (front ++ [a, b]))
    rw [swapLast_append_pair]
    refine ⟨by rw [← hlen]; simp, fun axis hmem => hall axis ?_⟩
    simp only [List.mem_append, List.mem_cons, List.not_mem_nil, or_false] at hmem ⊢
    exact hmem.imp_right Or.symm

/-- **Along the layers** the axes keep to the ranks. -/
theorem SoundLayers.axes_ranked {P : α → Prop} {ranks final : Ranks} {layers : List Layer}
    (hlayers : SoundLayers ranks layers final) {dims : List (Bytes × List α)}
    (hmatch : Matches (Ranked P) ranks dims) :
    Matches (Ranked P) final (layers.foldl (fun dims l =>
      (l.output, l.axes ((dims.lookup (l.operands.headD [])).getD [])) :: dims) dims) := by
  -- Both tables grow in front, under the same name at each layer.
  induction hlayers generalizing dims with
  | nil => exact hmatch
  | cons _ _ hrank _ ih => exact ih (.cons ⟨rfl, Layer.axes_ranked hmatch hrank⟩ hmatch)

/-- The axes of an input are its own, one for each. -/
theorem Network.inputDims_ranked {net : Network} {i : NetworkInput} (hi : i ∈ net.inputs)
    (hsound : SoundInput i) (hrank : i.min.length < 2 ^ 63) :
    Ranked (DimSpec.Within net) i.min.length (inputDims id i) := by
  constructor
  · rw [inputDims, List.length_map, List.length_zipIdx, List.length_zip, ← hsound.rank_eq,
      Nat.min_self]
  · intro dim hdim
    obtain ⟨⟨⟨low, high⟩, axis⟩, hmem, rfl⟩ := List.mem_map.mp hdim
    -- An axis is numbered by its place, and a place below 2 ^ 63 keeps its number in sixty-four
    -- bits.
    have haxis : axis < i.min.length := by
      have hlt := List.snd_lt_of_mem_zipIdx hmem
      rw [Nat.add_zero, List.length_zip] at hlt
      exact lt_of_lt_of_le hlt (Nat.min_le_left _ _)
    dsimp only
    split
    next => exact .inl rfl
    next =>
      refine .inr ⟨i, hi, rfl, Kernel.ofNat_nonneg (by omega), ?_⟩
      exact lt_of_le_of_lt (Kernel.toNatClampNeg_ofNat_le axis) haxis

/-- **Every value of a network** has as many axes as the check counts, all within the network. -/
theorem Network.allDims_within {net : Network} (hinputs : ∀ i ∈ net.inputs, SoundInput i)
    (hranks : ∀ i ∈ net.inputs, i.min.length < 2 ^ 63) {ranks : Ranks}
    (hlayers : SoundLayers net.inputRanks net.layers ranks) :
    Matches (Ranked (DimSpec.Within net)) ranks (net.allDims id) :=
  hlayers.axes_ranked (net.matches_inputTable fun i hi =>
    inputDims_ranked hi (hinputs i hi) (hranks i hi))

/-! ### The derived metadata -/

/-- Metadata stays sound as a handle keeps it. -/
theorem Metadata.Sound.normalized {ν : Type} [DecidableEq ν] [BindingName ν] {m : Metadata ν}
    {inputNames outputNames : List ν} (h : m.Sound inputNames outputNames) :
    m.normalized.Sound inputNames outputNames := by
  refine ⟨h.inputs, fun hne => ?_⟩
  -- Keeping metadata drops no output, so outputs that are left were given.
  have hgiven : m.outputs ≠ [] := by
    intro hnone
    exact hne (by rw [Metadata.normalized, hnone]; rfl)
  rw [Metadata.normalized, List.forall₂_map_left_iff]
  refine (h.outputs hgiven).imp fun spec name hspec => ⟨hspec.name_eq, hspec.dtype, ?_⟩
  dsimp only
  split
  next => simp
  next => exact hspec.dims

namespace NetworkDraft

variable {d : NetworkDraft}

/-- The spec that the metadata has under the name of an input has the rank of the input. -/
theorem rank_of_input? (hnodup : d.network.inputNames.Nodup) {i : NetworkInput}
    (hi : i ∈ d.network.inputs) {spec : InputSpec Bytes}
    (hspec : (d.deriveMetadata id).input? i.name = some spec) :
    spec.low.length = i.min.length := by
  -- Names differ, so the spec that is found belongs to this very input.
  obtain ⟨j, hj, rfl⟩ := List.mem_map.mp (List.mem_of_find?_eq_some hspec)
  have hj' : j.input ∈ d.network.inputs := List.mem_map_of_mem hj
  have hname : j.name = i.name := by simpa using List.find?_some hspec
  rw [← List.inj_on_of_nodup_map hnodup hj' hi hname]
  rfl

/-- **What is derived from a sound network is sound.** -/
theorem deriveMetadata_sound (hranks : ∀ i ∈ d.network.inputs, i.min.length < 2 ^ 63)
    {ranks : Ranks} (hsound : d.network.Sound ranks) :
    (d.deriveMetadata id).Sound d.network.inputNames d.outputs := by
  have hdtype : DType.float32.isValid = true := by decide
  constructor
  · intro _
    rw [Network.inputNames, network, List.map_map, deriveMetadata, List.forall₂_map_left_iff,
      List.forall₂_map_right_iff, List.forall₂_same]
    intro i hi
    exact ⟨rfl, hdtype, (hsound.inputs i.input (List.mem_map_of_mem hi)).ranges⟩
  · intro _
    rw [deriveMetadata, List.forall₂_map_left_iff, List.forall₂_same]
    intro name hname
    refine ⟨rfl, hdtype, fun dim hdim => ?_⟩
    -- An output is defined by a layer or an input, and its axes lie within the network.
    obtain ⟨r, hr⟩ := hsound.outputs_defined name hname
    obtain ⟨dims, hdims, -, hwithin⟩ :=
      (Network.allDims_within hsound.inputs hranks hsound.layers).lookup hr
    rw [Option.getD_some, hdims, Option.getD_some] at hdim
    obtain hstatic | ⟨i, hi, hinput, haxis, hlt⟩ := hwithin dim hdim
    · exact .inl hstatic
    · refine .inr ⟨haxis, ?_, fun spec hspec => ?_⟩
      · rw [hinput]
        exact List.mem_map_of_mem hi
      · rw [hinput] at hspec
        rw [rank_of_input? hsound.inputs_nodup hi hspec]
        exact hlt

end NetworkDraft

/-! ### Names and strings -/

/-- Names that are given and differ are names for bindings unless they hold the delimiter. -/
theorem bindingNames_iff {names : List Bytes} (hnamed : ∀ n ∈ names, n ≠ [])
    (hnodup : names.Nodup) :
    BindingNames names ↔ ∀ n ∈ names, bindingDelim.toUInt8 ∉ n := by
  have hdelim (n : Bytes) : BindingName.hasDelim n = false ↔ bindingDelim.toUInt8 ∉ n := by
    rw [← Bool.not_eq_true]
    exact not_congr List.contains_iff_mem
  constructor
  · exact fun h n hn => (hdelim n).mp (h.free n hn)
  · exact fun hfree => ⟨hnamed, fun n hn => (hdelim n).mpr (hfree n hn), hnodup⟩

/-- Layers that are named define nothing without a name. -/
theorem SoundLayers.lookup_nil {ranks final : Ranks} {layers : List Layer}
    (h : SoundLayers ranks layers final) (hnone : ranks.lookup [] = none) :
    final.lookup [] = none := by
  induction h with
  | nil => exact hnone
  | cons hnamed _ _ _ ih => exact ih ((lookup_cons_ne hnamed.symm).trans hnone)

/-- The outputs of a sound network are named, as all that they can name is. -/
theorem Network.Sound.output_named {net : Network} {ranks : Ranks} (h : net.Sound ranks) :
    ∀ n ∈ net.outputs, n ≠ [] := by
  have hinputs : net.inputRanks.lookup [] = none := by
    refine Option.eq_none_iff_forall_ne_some.mpr fun r hr => ?_
    obtain ⟨i, hi, hname, -⟩ := Network.of_lookup_inputTable hr
    exact (h.inputs i hi).named hname
  rintro n hn rfl
  obtain ⟨r, hr⟩ := h.outputs_defined [] hn
  rw [h.layers.lookup_nil hinputs] at hr
  cases hr

/-- Every name in a network. -/
def Network.names (net : Network) : List Bytes :=
  net.inputNames ++ net.layers.flatMap (fun l => l.operands ++ [l.output]) ++ net.outputs

/-- A label that means an operation is as short as the names of operations are. -/
theorem Layer.label_length_le {l : Layer} {op : LayerOp} (hop : l.op? = some op) :
    l.label.length ≤ Wire.maxString := by
  have hlabel : Bytes.ofText op.name = l.label := by simpa using List.find?_some hop
  rw [← hlabel]
  cases op <;> decide

/-- The strings of a payload fit if the platform, the signature and the names do: a label that means
an operation is short. -/
theorem BuildConfig.strings_fit_iff {c : BuildConfig} {net : Network} {ranks : Ranks}
    (hsound : net.Sound ranks) :
    (∀ s ∈ Wire.strings (c.compile net), s.length ≤ Wire.maxString) ↔
      (Bytes.ofText c.withDefaults.platform).length ≤ Wire.maxString ∧
        (Bytes.ofText c.withDefaults.signature).length ≤ Wire.maxString ∧
        ∀ n ∈ net.names, n.length ≤ Wire.maxString := by
  have hlabels : ∀ l ∈ net.layers, l.label.length ≤ Wire.maxString := by
    intro l hl
    obtain ⟨_, _, hrank⟩ := hsound.layers.rank_of_mem hl
    obtain ⟨_, hop, -⟩ := hrank.arity
    exact Layer.label_length_le hop
  -- Both sides list the same strings, once the labels are known to be short.
  simp only [Wire.strings, Network.names, Network.inputNames, compile, List.forall_mem_append,
    List.forall_mem_cons, List.forall_mem_flatMap]
  constructor
  · rintro ⟨⟨⟨⟨hplatform, hsignature, -⟩, hinputs⟩, hlayers⟩, houtputs⟩
    exact ⟨hplatform, hsignature, ⟨hinputs, fun l hl => ⟨(hlayers l hl).1.2, (hlayers l hl).2⟩⟩,
      houtputs⟩
  · rintro ⟨hplatform, hsignature, ⟨hinputs, hlayers⟩, houtputs⟩
    exact ⟨⟨⟨⟨hplatform, hsignature, by simp⟩, hinputs⟩,
      fun l hl => ⟨⟨hlabels l hl, (hlayers l hl).1⟩, (hlayers l hl).2⟩⟩, houtputs⟩

/-! ### Building -/

namespace BuildConfig

/-- **What a handle is built from**: a sound network, strings that fit into a payload, binding names
and a signature without the delimiter, and a name and a platform that show. -/
structure Admits (c : BuildConfig) (name : String) (net : Network) : Prop where
  network : net.validate = .ok ()
  names_fit : ∀ n ∈ net.names, n.length ≤ Wire.maxString
  platform_fits : (Bytes.ofText c.withDefaults.platform).length ≤ Wire.maxString
  signature_fits : (Bytes.ofText c.withDefaults.signature).length ≤ Wire.maxString
  inputs_free : ∀ n ∈ net.inputNames, bindingDelim.toUInt8 ∉ n
  outputs_free : ∀ n ∈ net.outputs, bindingDelim.toUInt8 ∉ n
  name_shows : Text.isBlankText name = false
  platform_shows : Text.isBlankText c.withDefaults.platform = false
  signature_free : bindingDelim ∉ c.withDefaults.signature.toList

/-- The parts of the handle that is built around a payload. -/
def handleParts (c : BuildConfig) (name : String) (d : NetworkDraft) (engine : Bytes) :
    HandleParts Bytes where
  name := name
  device := ⟨.cpu, c.withDefaults.signature⟩
  engine := engine
  inputNames := d.network.inputNames
  outputNames := d.outputs
  hardwareCompatible := c.withDefaults.hardwareCompatible
  metadata := d.deriveMetadata id
  targetPlatform := c.withDefaults.platform

variable {c : BuildConfig} {name : String} {d : NetworkDraft}

/-- A handle is built where a payload is and the parts around it are sound. -/
theorem exists_buildHandle_iff : (∃ h, c.buildHandle name d = .ok h) ↔
    ∃ engine, c.build d.network = .ok engine ∧
      (c.handleParts name d engine).withDefaults.Sound := by
  have hbuild : c.buildHandle name d = (c.build d.network >>= fun engine =>
      (Handle.make (c.handleParts name d engine)).mapError .handle) := by
    unfold buildHandle buildHandleAs handleParts
    simp only [List.map_id]
  simp only [hbuild, bind_eq_ok_iff, mapError_eq_ok_iff, ← Handle.exists_make_iff]
  exact exists_comm.trans (exists_congr fun _ => exists_and_left)

/-- With defaults the signature and the platform are given. -/
theorem withDefaults_given (c : BuildConfig) :
    c.withDefaults.signature ≠ "" ∧ c.withDefaults.platform ≠ "" := by
  have hfilled {s filled : String} (hne : filled ≠ "") : (if s = "" then filled else s) ≠ "" := by
    split
    next => exact hne
    next hgiven => exact hgiven
  exact ⟨hfilled (by decide), hfilled (by decide)⟩

/-- A platform that is filled in is not filled in again. -/
theorem platform_handleParts {engine : Bytes} :
    (c.handleParts name d engine).withDefaults.targetPlatform = c.withDefaults.platform :=
  if_neg c.withDefaults_given.2

/-- Around a payload of a sound network, the parts are sound unless a name, the signature or the
platform is at fault. -/
theorem handleParts_sound_iff (hranks : ∀ i ∈ d.network.inputs, i.min.length < 2 ^ 63)
    {ranks : Ranks} (hsound : d.network.Sound ranks) {engine : Bytes} (hengine : engine ≠ []) :
    (c.handleParts name d engine).withDefaults.Sound ↔
      Text.isBlankText name = false ∧ bindingDelim ∉ c.withDefaults.signature.toList ∧
        (∀ n ∈ d.network.inputNames, bindingDelim.toUInt8 ∉ n) ∧
        (∀ n ∈ d.outputs, bindingDelim.toUInt8 ∉ n) ∧
        Text.isBlankText c.withDefaults.platform = false := by
  -- Being named and different is known from the network, so only the delimiter is left to ask for.
  have hnamed : ∀ n ∈ d.network.inputNames, n ≠ [] :=
    List.forall_mem_map.mpr fun i hi => (hsound.inputs i hi).named
  have hinputs := bindingNames_iff hnamed hsound.inputs_nodup
  have houtputs := bindingNames_iff hsound.output_named hsound.outputs_nodup
  constructor
  · intro h
    exact ⟨h.name, h.signature_free, hinputs.mp h.inputs, houtputs.mp h.outputs,
      platform_handleParts ▸ h.platform⟩
  · rintro ⟨hname, hsignature, hin, hout, hplatform⟩
    exact {
      name := hname
      signature := c.withDefaults_given.1
      signature_free := hsignature
      engine := hengine
      inputs := hinputs.mpr hin
      outputs_ne_nil := hsound.outputs_ne_nil
      outputs := houtputs.mpr hout
      platform := platform_handleParts.symm ▸ hplatform
      metadata := (NetworkDraft.deriveMetadata_sound hranks hsound).normalized }

/-- **When a handle can be built.** From a draft whose inputs have a number of axes in the range of
counts, a handle is built exactly where `Admits` holds, whatever octets its names are. The metadata
that is derived from a network that passed its check is never refused, whatever its layers are:
along them every value has as many axes as the check counted, and each is a size or an axis that an
input has. -/
theorem buildHandle_succeeds_iff (c : BuildConfig) (name : String) {d : NetworkDraft}
    (haxes : ∀ i ∈ d.network.inputs, i.min.length < 2 ^ 63) :
    ((∃ h, c.buildHandle name d = .ok h) ↔ c.Admits name d.network) ∧
      (∀ m, d.metadata id = .ok m →
        m.normalized.validate d.network.inputNames d.outputs = .ok ()) ∧
      ∀ ranks, d.network.ranks = .ok ranks →
        Matches (Ranked (DimSpec.Within d.network)) ranks (d.network.allDims id) := by
  refine ⟨?_, fun m hm => ?_, fun ranks hranks => ?_⟩
  · rw [exists_buildHandle_iff]
    constructor
    · rintro ⟨engine, hbuild, hparts⟩
      obtain ⟨hvalid, hencode⟩ := build_eq_ok_iff.mp hbuild
      obtain ⟨ranks, hsound⟩ := Network.sound_of_validate hvalid
      obtain ⟨hstrings, -⟩ := (Wire.encode_eq_ok_iff _ _).mp hencode
      obtain ⟨hplatform, hsignature, hnames⟩ := (strings_fit_iff hsound).mp hstrings
      obtain ⟨hname, hfree, hin, hout, hshows⟩ :=
        (handleParts_sound_iff haxes hsound hparts.engine).mp hparts
      exact ⟨hvalid, hnames, hplatform, hsignature, hin, hout, hname, hshows, hfree⟩
    · intro h
      obtain ⟨ranks, hsound⟩ := Network.sound_of_validate h.network
      have hstrings := (strings_fit_iff hsound).mpr
        ⟨h.platform_fits, h.signature_fits, h.names_fit⟩
      refine ⟨_, build_eq_ok_iff.mpr ⟨h.network, (Wire.encode_eq_ok_iff _ _).mpr ⟨hstrings, rfl⟩⟩,
        (handleParts_sound_iff haxes hsound ?_).mpr ⟨h.name_shows, h.signature_free,
          h.inputs_free, h.outputs_free, h.platform_shows⟩⟩
      -- The check value alone takes four octets.
      intro hempty
      have hlen := Wire.sealed_length (Wire.body (c.compile d.network))
      rw [hempty] at hlen
      exact absurd hlen (by simp)
  · rw [NetworkDraft.metadata] at hm
    split at hm
    next => cases hm
    next hvalid =>
      cases hm
      obtain ⟨ranks, hsound⟩ := Network.sound_of_validate hvalid
      exact Metadata.validate_eq_ok_iff.mpr
        (NetworkDraft.deriveMetadata_sound haxes hsound).normalized
  · obtain ⟨hinputs, -, hlayers⟩ := Network.of_ranks hranks
    exact Network.allDims_within hinputs haxes hlayers

/-- A network of two inputs, whose names are no texts: an axis is summed away, the other two change
places, and what comes out is added to itself. -/
def folding : NetworkDraft where
  inputs := [{ name := [0xFF], min := some [2, 0, 3], max := some [2, -1, 5] },
    { name := [0xFE], min := some [1], max := some [1] }]
  layers := [
    { label := .ofText "reduce_sum", operands := [[0xFF]], output := [115], axis := 0 },
    { label := .ofText "transpose", operands := [[115]], output := [116] },
    { label := .ofText "add", operands := [[116], [116]], output := [121] }]
  outputs := [[121], [0xFE]]

/-- It is built with everything left open, and not for a signature that holds the delimiter. -/
theorem buildHandle_succeeds_iff_folding :
    (∃ h, buildHandle {} "fold" folding = .ok h) ∧
      ¬∃ h, buildHandle { signature := "cpu%1" } "fold" folding = .ok h := by
  have haxes : ∀ i ∈ folding.network.inputs, i.min.length < 2 ^ 63 := by decide
  obtain ⟨hplain, -, -⟩ := buildHandle_succeeds_iff {} "fold" haxes
  obtain ⟨hmarked, -, -⟩ := buildHandle_succeeds_iff { signature := "cpu%1" } "fold" haxes
  refine ⟨hplain.mpr ?_, fun hbuilt => ?_⟩
  · exact ⟨by decide +kernel, by decide +kernel, by decide +kernel, by decide +kernel,
      by decide +kernel, by decide +kernel, by decide +kernel, by decide +kernel, by decide +kernel⟩
  · exact (hmarked.mp hbuilt).signature_free (by decide)

end BuildConfig

end EngineHost
