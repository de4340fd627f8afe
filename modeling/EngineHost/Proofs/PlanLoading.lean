import EngineHost.Plan.Loader
import EngineHost.Proofs.TextForms
import EngineHost.Proofs.WireExact

/-!
# Plans load where they were built for

A payload records the platform, the flag and the signature that its network was built under, and a
runtime holds these against its own host. `BuildConfig.Suits` says in texts when the two agree: the
same platform, the same flag, and the same device, or only the same family of devices where the plan
is hardware compatible. Where the network fits the widths of the byte format, a payload that was
built loads exactly on the hosts that suit it, and what it loads into is the engine of that very
network (`PlanRuntime.loads_where_it_suits`).

The payload holds octets where the configuration and the host have texts. UTF-8 tells texts apart
(`Bytes.ofText_inj`) and no octet of a longer character is a slash, so the family may be cut off
before or after encoding (`PlanRuntime.familyOf_ofText`).

The condition on widths stands for a check that building does not make. Counts, ranks and axes are
cut to their width, so a network outside the widths is written as something else: it never comes
back (`PlanRuntime.fitsWidths_of_loadPlan`), and what comes in its place can be a sound network of
its own (`PlanRuntime.wide_rank_loads_as_another`).
-/

namespace EngineHost

/-! ### Texts and their octets -/

/-- UTF-8 tells texts apart. -/
theorem Bytes.ofText_inj {s t : String} : ofText s = ofText t ↔ s = t := by
  refine ⟨fun h => ?_, congrArg ofText⟩
  have hchars : s.toList = t.toList := by
    rw [← toChars_ofText, ← toChars_ofText, h]
  exact String.toList_injective hchars

/-- A slash is one octet, and no other character has that octet in its form. -/
theorem slash_not_mem_utf8 {c : Char} (h : c ≠ '/') :
    '/'.toUInt8 ∉ String.utf8EncodeChar c := by
  have hslash : '/'.toUInt8.toNat = 47 := rfl
  have hc : c.val.toNat ≠ 47 := fun heq => h (Char.ext (UInt32.toNat_inj.mp heq))
  intro hmem
  unfold String.utf8EncodeChar at hmem
  generalize c.val.toNat = v at hc hmem
  dsimp only at hmem
  -- A character of one octet is that octet; the octets of longer forms all have the highest bit.
  split_ifs at hmem <;>
    simp only [List.mem_cons, List.not_mem_nil, or_false, ← UInt8.toNat_inj, hslash,
      UInt8.toNat_ofNat'] at hmem <;>
    omega

namespace PlanRuntime

/-- The first slash of a text is the first slash among its octets. -/
theorem takeWhile_utf8 (cs : List Char) :
    (cs.flatMap String.utf8EncodeChar).takeWhile (· ≠ '/'.toUInt8) =
      (cs.takeWhile (· ≠ '/')).flatMap String.utf8EncodeChar := by
  induction cs with
  | nil => rfl
  | cons c more ih =>
    by_cases hc : c = '/'
    · subst hc
      rfl
    · -- No octet of another character ends the family.
      have hfree : ∀ b ∈ String.utf8EncodeChar c, decide (b ≠ '/'.toUInt8) = true := by
        intro b hb
        have hne : b ≠ '/'.toUInt8 := fun heq => slash_not_mem_utf8 hc (heq ▸ hb)
        exact decide_eq_true hne
      have hkept : (c :: more).takeWhile (· ≠ '/') = c :: more.takeWhile (· ≠ '/') :=
        List.takeWhile_cons_of_pos (decide_eq_true hc)
      rw [List.flatMap_cons, List.takeWhile_append_of_pos hfree, ih, hkept, List.flatMap_cons]

/-- The family of a signature is cut off its octets as it is cut off its text. -/
theorem familyOf_ofText (signature : String) :
    familyOf (Bytes.ofText signature) = Bytes.ofText (signatureFamily signature) := by
  rw [familyOf, Bytes.ofText, takeWhile_utf8, Bytes.ofText, signatureFamily, Text.before,
    String.toList_ofList]

end PlanRuntime

/-! ### Hosts that suit a plan -/

/-- A device is taken for a processor by its name or by having none. -/
theorem Device.isProcessor_iff (d : Device) :
    ¬(d.type ≠ "cpu" ∧ d.type ≠ "") ↔ d.typeName = "cpu" := by
  unfold typeName
  split
  next h => simp [h]
  next h => simp [h]

/-- **A host suits what is built under a configuration**, for a handle with a flag: the platforms
and the flags agree, and the devices do, up to their families where the build is hardware
compatible. -/
def BuildConfig.Suits (c : BuildConfig) (host : HostConfig) (flag : Bool) : Prop :=
  c.withDefaults.platform = host.withDefaults.platform ∧ flag = c.hardwareCompatible ∧
    if c.hardwareCompatible then
      signatureFamily c.withDefaults.signature = signatureFamily host.withDefaults.signature
    else c.withDefaults.signature = host.withDefaults.signature

instance (c : BuildConfig) (host : HostConfig) (flag : Bool) : Decidable (c.Suits host flag) :=
  inferInstanceAs (Decidable (_ ∧ _ ∧ _))

/-- What is built is sound, and the payload is its compiled form. -/
theorem BuildConfig.build_eq_ok_iff {c : BuildConfig} {net : Network} {payload : Bytes} :
    c.build net = .ok payload ↔
      net.validate = .ok () ∧ Wire.encode (c.compile net) = .ok payload := by
  unfold BuildConfig.build
  split
  next e hrefused =>
    rw [hrefused]
    exact ⟨(by cases ·), fun h => by cases h.1⟩
  next hvalid =>
    rw [mapError_eq_ok_iff]
    exact ⟨fun hencode => ⟨hvalid, hencode⟩, And.right⟩

namespace PlanRuntime

/-- The device is the right one: the same family, or the same altogether. -/
theorem deviceProblem?_eq_none_iff (c : BuildConfig) (net : Network) (host : HostConfig) :
    deviceProblem? host.withDefaults (c.compile net) = none ↔
      if c.hardwareCompatible then
        signatureFamily c.withDefaults.signature = signatureFamily host.withDefaults.signature
      else c.withDefaults.signature = host.withDefaults.signature := by
  have hflag : (c.compile net).hardwareCompatible = c.hardwareCompatible := rfl
  have hsignature : (c.compile net).signature = Bytes.ofText c.withDefaults.signature := rfl
  unfold deviceProblem?
  dsimp only
  rw [hflag, hsignature, familyOf_ofText, familyOf_ofText]
  by_cases hcompatible : c.hardwareCompatible = true
  · rw [if_pos hcompatible, if_pos hcompatible, ← Bytes.ofText_inj]
    simp only [ite_eq_right_iff, reduceCtorEq, imp_false, not_not]
  · rw [if_neg hcompatible, if_neg hcompatible, ← Bytes.ofText_inj]
    simp only [ite_eq_right_iff, reduceCtorEq, imp_false, not_not]

/-- A plan has no problem on a processor exactly where the host suits its configuration. -/
theorem problem?_eq_none_iff (c : BuildConfig) (net : Network) (host : HostConfig) {o : LoadOptions}
    (hcpu : o.device.device.typeName = "cpu") :
    problem? host.withDefaults o (c.compile net) = none ↔ c.Suits host o.hardwareCompatible := by
  have hflag : (c.compile net).hardwareCompatible = c.hardwareCompatible := rfl
  have hplatform : (c.compile net).platform = Bytes.ofText c.withDefaults.platform := rfl
  have hprocessor : ¬(o.device.device.type ≠ "cpu" ∧ o.device.device.type ≠ "") :=
    (Device.isProcessor_iff _).mpr hcpu
  unfold problem? BuildConfig.Suits
  rw [hflag, hplatform, if_neg hprocessor, ← deviceProblem?_eq_none_iff c net host]
  -- The checks are made in the order in which the three conditions stand.
  by_cases hsame : c.withDefaults.platform = host.withDefaults.platform
  · by_cases hbuilt : o.hardwareCompatible = c.hardwareCompatible
    · rw [if_neg (not_not.mpr (congrArg Bytes.ofText hsame)), if_neg (not_not.mpr hbuilt.symm)]
      exact ⟨fun hdevice => ⟨hsame, hbuilt, hdevice⟩, fun hsuits => hsuits.2.2⟩
    · rw [if_neg (not_not.mpr (congrArg Bytes.ofText hsame)), if_pos (Ne.symm hbuilt)]
      exact ⟨fun hnone => absurd hnone (by simp), fun hsuits => absurd hsuits.2.1 hbuilt⟩
  · rw [if_pos fun heq => hsame (Bytes.ofText_inj.mp heq)]
    exact ⟨fun hnone => absurd hnone (by simp), fun hsuits => absurd hsuits.1 hsame⟩

section Built

variable {c : BuildConfig} {net : Network} {payload : Bytes}
  (hbuild : c.build net = .ok payload) (host : HostConfig) {o : LoadOptions}

include hbuild in
/-- **What a payload loads into**, if its network fits the widths. -/
theorem loadPlan_eq_ok_iff (hwidths : net.FitsWidths) (hcpu : o.device.device.typeName = "cpu")
    (e : PlanEngine) :
    loadPlan host.withDefaults payload o = .ok e ↔ c.Suits host o.hardwareCompatible ∧
      e = { name := o.name, network := net, split := Kernel.chunks host.workers } := by
  -- The network was checked when it was built, so its compiled form is read back.
  obtain ⟨hvalid, hencode⟩ := BuildConfig.build_eq_ok_iff.mp hbuild
  have hdecode : Wire.decode payload = .ok (c.compile net) :=
    Wire.decode_of_encode rfl hvalid hwidths hencode
  rw [← problem?_eq_none_iff c net host hcpu]
  unfold loadPlan
  rw [hdecode]
  dsimp only
  cases problem? host.withDefaults o (c.compile net) with
  | none => exact ⟨fun h => ⟨rfl, (Except.ok.inj h).symm⟩, fun h => congrArg Except.ok h.2.symm⟩
  | some why => exact ⟨(by cases ·), fun h => absurd h.1 (by simp)⟩

/-- Nothing that does not fit the widths comes out of a payload, whatever went into it. -/
theorem fitsWidths_of_loadPlan {e : PlanEngine} (hload : loadPlan host payload o = .ok e) :
    e.network.FitsWidths := by
  unfold loadPlan at hload
  split at hload
  next => cases hload
  next p hdecode =>
  split at hload
  next => cases hload
  next =>
  cases hload
  -- Whatever is read fits the widths, as they are those that it was read from.
  obtain ⟨hfits, -⟩ := (Wire.decode_eq_ok_iff payload p).mp hdecode
  exact ⟨hfits.inputCount, hfits.layerCount, hfits.outputCount,
    fun i hi => (hfits.inputs i hi).rank, fun l hl => (hfits.layers l hl).axis⟩

include hbuild in
/-- **A plan loads where it was built for.** A payload was built from a network under a
configuration; a runtime is asked to load it for a processor. If the network fits the widths of the
format, that succeeds exactly where the host suits the configuration, and gives the engine of the
network as it was handed in. If it does not, the network never comes back. -/
theorem loads_where_it_suits (hcpu : o.device.device.typeName = "cpu") :
    (net.FitsWidths →
      (((runtime host).load payload o).isOk = true ↔ c.Suits host o.hardwareCompatible) ∧
      ∀ e, (runtime host).load payload o = .ok e →
        e = engineOf { name := o.name, network := net, split := Kernel.chunks host.workers }
          (Int64.ofNat payload.length)) ∧
    (¬net.FitsWidths → ∀ e, loadPlan host.withDefaults payload o = .ok e → e.network ≠ net) := by
  have hload : (runtime host).load payload o =
      (loadPlan host.withDefaults payload o).map (engineOf · (Int64.ofNat payload.length)) := rfl
  constructor
  · intro hwidths
    have hloads := loadPlan_eq_ok_iff hbuild host hwidths hcpu
    rw [hload]
    refine ⟨⟨fun hok => ?_, fun hsuits => ?_⟩, fun e hok => ?_⟩
    · cases hplan : loadPlan host.withDefaults payload o with
      | error f =>
        rw [hplan] at hok
        cases hok
      | ok e => exact ((hloads e).mp hplan).1
    · rw [(hloads _).mpr ⟨hsuits, rfl⟩]
      rfl
    · obtain ⟨plan, hplan, rfl⟩ := map_eq_ok_iff.mp hok
      rw [((hloads plan).mp hplan).2]
  · rintro hwide e hplan rfl
    exact hwide (fitsWidths_of_loadPlan host.withDefaults hplan)

end Built

/-- For any model of the processor family. -/
def familyConfig : BuildConfig where
  hardwareCompatible := true
  signature := "cpu/small"

/-- One model of that family. -/
def largeHost : HostConfig where
  signature := "cpu/large"

/-- A compatible plan loads on another model of its family, under its flag only. -/
theorem loads_where_it_suits_family :
    ∃ payload, familyConfig.build Wire.halving.network = .ok payload ∧
      ((runtime largeHost).load payload { hardwareCompatible := true }).isOk = true ∧
      ¬((runtime largeHost).load payload { hardwareCompatible := false }).isOk = true := by
  have hwidths : Wire.halving.network.FitsWidths :=
    ⟨by decide, by decide, by decide, by decide, by decide⟩
  have hstrings : ∀ s ∈ Wire.strings (familyConfig.compile Wire.halving.network),
      s.length ≤ Wire.maxString := by
    decide
  have hbuild : familyConfig.build Wire.halving.network =
      .ok (Wire.sealed (Wire.body (familyConfig.compile Wire.halving.network))) :=
    BuildConfig.build_eq_ok_iff.mpr ⟨by decide, (Wire.encode_eq_ok_iff _ _).mpr ⟨hstrings, rfl⟩⟩
  refine ⟨_, hbuild, ?_, ?_⟩
  · exact (((loads_where_it_suits hbuild largeHost rfl).1 hwidths).1).mpr (by decide)
  · exact (((loads_where_it_suits hbuild largeHost rfl).1 hwidths).1).not.mpr (by decide)

/-- An input of 256 axes, one more than an octet can count. The octets of its lower ends would make
a layer. -/
def wideRank : Network where
  inputs := [{ name := [120]
               min := 7954874718954717185 :: 8646912390395619700 :: 4072 :: List.replicate 253 0
               max := List.replicate 256 (-1) }]
  layers := []
  outputs := [[120]]

/-- An input without axes, and a copy of it under a long name. -/
def noRank : Network where
  inputs := [{ name := [120], min := [], max := [] }]
  layers := [{ label := Bytes.ofText "identity", operands := [[120]]
               output := List.replicate 2030 0 ++ List.replicate 2042 255
               axis := -1, scalar := ⟨65535⟩ }]
  outputs := [[120]]

set_option maxRecDepth 20000 in
/-- The octets of the lower ends, counted as none, are read as a layer. -/
theorem body_wideRank :
    Wire.body (BuildConfig.compile {} wideRank) = Wire.body (BuildConfig.compile {} noRank) := by
  decide +kernel

/-- **A network is lost without a word.** Its payload is also that of another network, and that one
is what loads, where the host suits the configuration. -/
theorem wide_rank_loads_as_another :
    ∃ payload e, BuildConfig.build {} wideRank = .ok payload ∧ BuildConfig.Suits {} {} false ∧
      loadPlan (HostConfig.withDefaults {}) payload {} = .ok e ∧ e.network = noRank ∧
      noRank ≠ wideRank := by
  have hwide : BuildConfig.build {} wideRank =
      .ok (Wire.sealed (Wire.body (BuildConfig.compile {} noRank))) := by
    have hstrings : ∀ s ∈ Wire.strings (BuildConfig.compile {} wideRank),
        s.length ≤ Wire.maxString := by
      decide
    rw [← body_wideRank]
    exact BuildConfig.build_eq_ok_iff.mpr
      ⟨by decide +kernel, (Wire.encode_eq_ok_iff _ _).mpr ⟨hstrings, rfl⟩⟩
  have hnone : BuildConfig.build {} noRank =
      .ok (Wire.sealed (Wire.body (BuildConfig.compile {} noRank))) := by
    have hstrings : ∀ s ∈ Wire.strings (BuildConfig.compile {} noRank),
        s.length ≤ Wire.maxString := by
      decide +kernel
    exact BuildConfig.build_eq_ok_iff.mpr
      ⟨by decide +kernel, (Wire.encode_eq_ok_iff _ _).mpr ⟨hstrings, rfl⟩⟩
  have hwidths : noRank.FitsWidths :=
    ⟨by decide, by decide, by decide, by decide, by decide⟩
  have hsuits : BuildConfig.Suits {} {} false := by decide
  have hload := (loadPlan_eq_ok_iff hnone {} hwidths (o := {}) rfl _).mpr ⟨hsuits, rfl⟩
  -- The one has a layer, the other has none.
  refine ⟨_, _, hwide, hsuits, hload, rfl, fun heq => ?_⟩
  have hlayers := congrArg (fun net => net.layers.length) heq
  exact absurd hlayers (by decide)

end PlanRuntime

end EngineHost
