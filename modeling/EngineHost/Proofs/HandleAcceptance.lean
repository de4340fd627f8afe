import EngineHost.Proofs.HandleReload

/-!
# Handles that are accepted but cannot be exported

`Handle.make` checks nine of the ten fields as strictly as reading does, and of the device only the
signature. Its type and its index are taken as they are given, while text gives a device one of two
types and an index that is not negative. So a handle that was made survives its exports exactly if
its device is one that text can give (`Handle.exports_iff_spelled`), whatever its names, its
metadata, its platform and its reserved text are.

Any other device is lost on the way. A type that no text means is refused when the handle is read
again (`Handle.accepted_but_not_exported`), and a type in capitals is read as another device.
-/

namespace EngineHost

/-- **A device that text can give**: one of two types, or none for the processor, and an index that
is not negative. -/
structure Device.Spelled (d : Device) : Prop where
  type : d.type = "" ∨ d.type = "cpu" ∨ d.type = "cuda"
  index : 0 ≤ d.index

/-- Spelling out an empty type leaves one of the two types exactly if text can give the device. -/
theorem Device.spelled_iff (d : Device) : d.Spelled ↔
    (d.normalized.type = "cpu" ∨ d.normalized.type = "cuda") ∧ 0 ≤ d.normalized.index := by
  by_cases hempty : d.type = ""
  · have htype : d.normalized.type = "cpu" := if_pos hempty
    constructor
    · intro hspelled
      exact ⟨.inl htype, hspelled.index⟩
    · rintro ⟨-, hindex⟩
      exact ⟨.inl hempty, hindex⟩
  · have htype : d.normalized.type = d.type := if_neg hempty
    rw [htype]
    constructor
    · rintro ⟨htypes, hindex⟩
      exact ⟨htypes.resolve_left hempty, hindex⟩
    · rintro ⟨htypes, hindex⟩
      exact ⟨.inr htypes, hindex⟩

namespace Handle

/-- **What is accepted and what can be exported.** A handle that was made comes back from its
positional list, and from its named fields, exactly if text can give the device that it was made
with. -/
theorem exports_iff_spelled {p : HandleParts} {h : Handle} (hmake : make p = .ok h) :
    (construct h.serialize = .ok h ↔ p.device.device.Spelled) ∧
      (deserialize h.flatten = .ok h ↔ p.device.device.Spelled) := by
  rw [Device.spelled_iff, ← device_of_make hmake]
  -- Whatever is read has a device that text gives; and with such a device nothing is lost.
  have hback (hspelled : (h.device.device.type = "cpu" ∨ h.device.device.type = "cuda") ∧
      0 ≤ h.device.device.index) : h.Reloads :=
    (settled_of_make hmake hspelled.1 hspelled.2).reloads
  constructor
  · exact ⟨device_of_construct, fun hspelled => (hback hspelled).positional⟩
  · constructor
    · intro hread
      obtain ⟨info, hconstruct⟩ := exists_construct_of_deserialize hread
      exact device_of_construct hconstruct
    · exact fun hspelled => (hback hspelled).named

/-- Parts that leave the device type and the platform open. -/
def openParts : HandleParts :=
  { unevenParts with device := ⟨⟨"", 3⟩, "fam|x/model"⟩, reserved := "%[\"kept\"]" }

theorem exports_iff_spelled_open : ∃ h, make openParts = .ok h ∧ h.targetPlatform = "linux_x86_64" ∧
    construct h.serialize = .ok h ∧ deserialize h.flatten = .ok h := by
  -- Making the handle is computed; that it comes back is not.
  have hsome : (make openParts).toOption.isSome = true := by decide +kernel
  have hmake := eq_ok_get hsome
  have hspelled : openParts.device.device.Spelled := ⟨.inl rfl, by decide⟩
  obtain ⟨hpositional, hnamed⟩ := exports_iff_spelled hmake
  refine ⟨_, hmake, ?_, hpositional.mpr hspelled, hnamed.mpr hspelled⟩
  rw [toHandleParts_of_make hmake]
  rfl

/-- A device field that is refused is what both exports of a handle are refused for. -/
theorem refused_of_device {h : Handle} {e : Malformed}
    (hdevice : DeviceInfo.parse h.device.text = .error e) :
    construct h.serialize = .error e ∧ deserialize h.flatten = .error e := by
  -- Both exports have the device as a text, and differ in how the payload is written.
  have hrefused (engine : FieldValue) : construct [.string schemaVersion, .string h.name,
      .string h.device.text, engine, .string (joinNames h.inputNames),
      .string (joinNames h.outputNames), .string (flagText h.hardwareCompatible),
      .string h.metadata.encode, .string h.targetPlatform, .string h.reserved] = .error e := by
    have hread : (readText .device (.string h.device.text)).bind DeviceInfo.parse = .error e :=
      hdevice
    simp only [construct, hread]
    rfl
  constructor
  · exact hrefused (.bytes h.engine)
  · rw [deserialize, if_neg (by simp [flatten]), flatten, takeValues_flatten, Except.bind]
    exact hrefused (.string (Base64.encode h.engine))

/-- Parts for a device of a third type. -/
def foreignParts : HandleParts :=
  { openParts with device := ⟨⟨"tpu", 0⟩, "tpu/v1"⟩ }

/-- A handle for a device of a third type is accepted, and neither of its exports can be read. -/
theorem accepted_but_not_exported :
    ∃ h, make foreignParts = .ok h ∧
      construct h.serialize = .error ⟨"device", "unsupported device type \"tpu\""⟩ ∧
      deserialize h.flatten = .error ⟨"device", "unsupported device type \"tpu\""⟩ := by
  have hsome : (make foreignParts).toOption.isSome = true := by decide +kernel
  have hmake := eq_ok_get hsome
  refine ⟨_, hmake, refused_of_device ?_⟩
  rw [toHandleParts_of_make hmake]
  decide +kernel

end Handle

end EngineHost
