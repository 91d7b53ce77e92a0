import BTHomeWritable.Agreement.Objects
import BTHomeWritable.Firmware.BTHome
import BTHomeWritable.Firmware.Plans

/-!
# What is learned about a type is right

An entry that is declared by its type alone is written and read by what
`writableSpec` has learned of the module "BTHome".  What a write hands to its
`set()` becomes, when `get()` returns it, the object of the write again; and what
`get()` returns, when it is written back, is handed to `set()`, up to a step.

The first direction is `encodeOne_returned`, for values that are `Plain`: bytes that
the type would not write itself come back as others.  The second is
`decodeValue_encodeOne`, where `Conveys` says which value becomes which.  Both go by
what a type stands for (`typed_cases`), so that a text, a number and a flag are one
case each.  `types_round_trip` says it of every entry of a device in every run.
-/

namespace BTHomeWritable.Agreement

open Device hiding World St Event SetupOpts setup sampleOpts
open Firmware Firmware.BTHome TwosComplement

/-- What a value that `set()` was given is, when `get()` returns it. -/
def returned : Value → Input
  | .text chars => .text chars
  | .boolean b => .boolean b
  | .code b => .number b.toNat
  | .number raw scale => .number (raw / scale)
  | .bytes b => .bytes b

/-- Value bytes as the type would encode them: a truth value is 0 or 1, and one byte holds no
number that has to be clipped or is below zero. -/
def Plain (t : Typed) (signed : Option Bool) (value : Bytes) : Prop :=
  match t with
  | .text => True
  | .number n => n.Exact (ofBytes (n.isSigned signed) value)
  | .boolean _ => value = [0] ∨ value = [1]

/-- `Conveys signed t x v`: when `get()` returns `x`, and that is written back, `set()` gets
`v`. -/
inductive Conveys (signed : Option Bool) : Typed → Input → Value → Prop
  | text {chars : List Char} (hlength : chars.length < 256) (hchars : ∀ c ∈ chars, c.toNat < 256) :
      Conveys signed .text (.text chars) (.text chars)
  | number {n : Numeric} {x : ℚ} (hspans : n.Spans x)
      (hfits : Fits (n.isSigned signed) n.width (n.steps x)) :
      Conveys signed (.number n) (.number x) (.number (n.steps x) n.scale)
  | boolean {id : UInt8} (b : Bool) : Conveys signed (.boolean id) (.boolean b) (.boolean b)

variable {type : String} {t : Typed} {signed : Option Bool} {value : Bytes} {writable : Writable}
  {env : Env}

/-- `decodeValue` reads numbers in two's complement, if they have a sign. -/
theorem decodeValue_of_number {spec : WritableSpec} {scale : ℕ} {signed : Bool}
    (hcodec : spec.codec = .number scale signed) (value : Bytes) :
    decodeValue value spec = .number (ofBytes signed value) scale := by
  have hraw : readUint value 0 value.length = LittleEndian.ofLE value := by
    rw [readUint_eq_ofLE, List.take_length, List.drop_zero]
  simp only [decodeValue, hcodec, hraw, ofBytes]

theorem toNat_ofNat (b : UInt8) : (Char.ofNat b.toNat).toNat = b.toNat := by
  have hlt := b.toNat_lt
  have hvalid : b.toNat.isValidChar := .inl (by omega)
  unfold Char.ofNat
  rw [dif_pos hvalid]
  rfl

theorem typed_cases (ht : typed type = some t) :
    (type = "text" ∧ t = .text) ∨ (∃ n, DEV type = some n ∧ t = .number n) ∨
      ∃ id, BOOL type = some id ∧ t = .boolean id := by
  unfold typed at ht
  cases hdev : DEV type with
  | some n =>
      rw [hdev] at ht
      exact .inr (.inl ⟨n, rfl, (Option.some.inj ht).symm⟩)
  | none =>
      rw [hdev] at ht
      simp only at ht
      split at ht
      · rename_i htext
        exact .inl ⟨htext, (Option.some.inj ht).symm⟩
      · obtain ⟨id, hbool, rfl⟩ := Option.map_eq_some_iff.mp ht
        exact .inr (.inr ⟨id, hbool, rfl⟩)

theorem specified_of_typed (t : Typed) (signed : Option Bool) :
    (t.spec signed).variableLength = true ∨ (t.spec signed).length.isSome := by
  cases t <;> simp [Typed.spec]

/-- What a write hands to `set()` is encoded as the object of the write. -/
theorem encodeOne_returned (ht : typed type = some t) (hspec : writable.spec = t.spec signed)
    (hwell : WellFormed writable value) (hplain : Plain t signed value) :
    encodeOne type (returned (decodeValue value writable.spec)) =
      .ok ⟨writable.spec.id, value⟩ := by
  unfold WellFormed at hwell
  rw [hspec] at hwell ⊢
  rcases typed_cases ht with ⟨rfl, rfl⟩ | ⟨n, hdev, rfl⟩ | ⟨id, hbool, rfl⟩
  · obtain ⟨count, rest, rfl, hcount⟩ : ∃ count rest, value = count :: rest ∧
        rest.length = count.toNat := hwell
    have hencode := @encodeOne_text (rest.map fun b => Char.ofNat b.toNat)
      (by rw [List.length_map, hcount]; exact count.toNat_lt)
      (by
        intro c hc
        obtain ⟨b, -, rfl⟩ := List.mem_map.mp hc
        rw [toNat_ofNat]
        exact b.toNat_lt)
    rw [List.length_map, hcount, List.map_map] at hencode
    have hchars : decodeValue (count :: rest) (Typed.text.spec signed) =
        .text (rest.map fun b => Char.ofNat b.toNat) := rfl
    rw [hchars, returned, hencode]
    simp [toNat_ofNat, Function.comp_def, Typed.spec]
  · have hwidth : n.width = value.length := Option.some.inj hwell
    rw [decodeValue_of_number rfl, returned, encodeOne_div hdev hplain, hwidth, toBytes_ofBytes]
    rfl
  · rw [encodeOne_boolean hbool]
    rcases hplain with rfl | rfl <;> rfl

/-- What `get()` returns is handed to `set()` when it is written back. -/
theorem decodeValue_encodeOne (ht : typed type = some t) (hspec : writable.spec = t.spec signed)
    {x : Input} {v : Value} (h : Conveys signed t x v) :
    ∃ value, encodeOne type x = .ok ⟨writable.spec.id, value⟩ ∧ WellFormed writable value ∧
      decodeValue value writable.spec = v := by
  unfold WellFormed
  rw [hspec]
  rcases typed_cases ht with ⟨rfl, rfl⟩ | ⟨n, hdev, rfl⟩ | ⟨id, hbool, rfl⟩
  · cases h with
    | @text chars hlength hchars =>
        refine ⟨_, encodeOne_text hlength hchars, ⟨_, _, rfl, ?_⟩, ?_⟩
        · rw [List.length_map, UInt8.toNat_ofNat', Nat.mod_eq_of_lt hlength]
        · have hback : ∀ c ∈ chars, Char.ofNat (UInt8.ofNat c.toNat).toNat = c := by
            intro c hc
            rw [UInt8.toNat_ofNat', Nat.mod_eq_of_lt (hchars c hc), Char.ofNat_toNat]
          show Value.text _ = Value.text chars
          rw [List.drop_succ_cons, List.drop_zero, List.map_map]
          exact congrArg Value.text ((List.map_congr_left hback).trans (List.map_id' chars))
  · cases h with
    | @number _ x hspans hfits =>
        have hsensible := sensible_of_dev hdev
        have hexact := (steps_of_spans hsensible hspans).1
        refine ⟨_, encodeOne_number hdev (byte_of_exact hsensible hexact), ?_, ?_⟩
        · exact congrArg some (length_toBytes n.width _).symm
        · rw [decodeValue_of_number rfl, ofBytes_toBytes hfits]
  · cases h with
    | boolean b =>
        refine ⟨_, encodeOne_boolean hbool _, rfl, ?_⟩
        cases b <;> rfl

theorem learned_of_specified (hspeaks : Speaks env) {entries : List Entry}
    (h : Specified env.encoder entries writable) :
    ∃ e, entries[writable.entryIndex]? = some e ∧
      (e.id = none → e.type ∉ OBJECT_MEMBERS →
        ∃ t, typed e.type = some t ∧ writable.spec = t.spec e.signed) := by
  obtain ⟨e, hentry, hspec, -⟩ := h
  refine ⟨e, hentry, fun hid hmember => ?_⟩
  cases ht : typed e.type with
  | none =>
      obtain ⟨x, hx⟩ := refused hspeaks hid hmember ht writable.entry
      rw [hx] at hspec
      cases hspec
  | some t =>
      rw [learned hspeaks hid ht] at hspec
      exact ⟨t, rfl, (Except.ok.inj hspec).symm⟩

/-- In every state a device reaches, an entry that is declared by its type alone takes and gives the
same values: what a write hands to its `set()` is encoded as the object of the write, and what its
`get()` returns is encoded as an object whose write hands that to `set()`, to less than a step. -/
theorem types_round_trip (env : Env) (file : Option MarksFile) (events : List BoardEvent)
    (hspeaks : Speaks env) :
    Holds (fun w => ∀ writable ∈ w.st.plan.writable, ∃ e,
        w.st.entries[writable.entryIndex]? = some e ∧
        (e.id = none → e.type ∉ OBJECT_MEMBERS → ∃ t, typed e.type = some t ∧
          (∀ o : Obj, parseWrite (o.id :: o.value) writable = .ok o.value →
            Plain t e.signed o.value →
            encodeOne e.type (returned (decodeValue o.value writable.spec)) = .ok o) ∧
          (∀ x v, Conveys e.signed t x v → ∃ o, encodeOne e.type x = .ok o ∧
            parseWrite (o.id :: o.value) writable = .ok o.value ∧
            decodeValue o.value writable.spec = v) ∧
          ∀ n x, t = .number n → n.Spans x →
            |(n.steps x : ℚ) / n.scale - x| < 1 / n.scale))
      (Runs.run (Board.step env) (Board.powerOn file) events) := by
  intro st hst writable hmem
  obtain ⟨e, hentry, hlearned⟩ :=
    learned_of_specified hspeaks (specified_run env file events st hst writable hmem)
  refine ⟨e, hentry, fun hid hmember => ?_⟩
  obtain ⟨t, ht, hspec⟩ := hlearned hid hmember
  have hspecified : writable.spec.variableLength = true ∨ writable.spec.length.isSome := by
    rw [hspec]
    exact specified_of_typed t e.signed
  refine ⟨t, ht, ?_, ?_, ?_⟩
  · intro o hparse hplain
    obtain ⟨hobject, hwell⟩ := (parseWrite_ok_iff hspecified).mp hparse
    rw [encodeOne_returned ht hspec hwell hplain, ← (List.cons.inj hobject).1]
  · intro x v h
    obtain ⟨value, hencode, hwell, hback⟩ := decodeValue_encodeOne ht hspec h
    exact ⟨_, hencode, (parseWrite_ok_iff hspecified).mpr ⟨rfl, hwell⟩, hback⟩
  · rintro n x rfl hspans
    rcases typed_cases ht with ⟨-, hnumber⟩ | ⟨n', hdev, hnumber⟩ | ⟨id, -, hnumber⟩
    · cases hnumber
    · obtain rfl := Typed.number.inj hnumber
      exact abs_steps_sub_lt (sensible_of_dev hdev) hspans
    · cases hnumber

/-- A device whose encoder is the module "BTHome". -/
def speakingEnv : Env :=
  { sampleEnv with
    probe := fun e p => (encodeOne e.type (probeInput p)).mapError fun _ => ⟨none, "not encoded"⟩ }

theorem speaks_speakingEnv : Speaks speakingEnv where
  encodes e p o h := by
    show (encodeOne e.type (probeInput p)).mapError _ = .ok o
    rw [h]
    rfl
  throws e p h := by
    refine ⟨⟨none, "not encoded"⟩, ?_⟩
    show (encodeOne e.type (probeInput p)).mapError _ = _
    rw [h]
    rfl

def sampleSetpoint : Entry where
  type := "temperature"
  id := none
  length := none
  variableLength := false
  signed := none
  hasSet := true
  hasGet := true
  interval := none

def sampleThermostat : SetupOpts := { sampleOpts with advertise := [sampleBattery, sampleSetpoint] }

set_option maxRecDepth 4000 in
/-- A setpoint of -24.7 degrees, and one of 21.504. -/
theorem types_round_trip_sample :
    ∃ st writable, (Runs.run (Board.step speakingEnv) (Board.powerOn none)
        [.setup sampleThermostat]).st = some st ∧ writable ∈ st.plan.writable ∧
      writable.spec = ⟨0x02, some 2, false, .number 100 true⟩ ∧
      encodeOne "temperature" (returned (decodeValue [0x5A, 0xF6] writable.spec)) =
        .ok ⟨0x02, [0x5A, 0xF6]⟩ ∧
      ∃ o, encodeOne "temperature" (.number 21.504) = .ok o ∧
        parseWrite (o.id :: o.value) writable = .ok o.value ∧
        decodeValue o.value writable.spec = .number 2150 100 := by
  have hboard : (Runs.run (Board.step speakingEnv) (Board.powerOn none)
      [.setup sampleThermostat]).st.map (fun st => (st.plan.writable, st.entries)) =
      some ([⟨⟨0x02, some 2, false, .number 100 true⟩, 1, 1, true⟩],
        [sampleBattery, sampleSetpoint]) := by decide +kernel
  obtain ⟨st, hst, hmade⟩ := Option.map_eq_some_iff.mp hboard
  obtain ⟨hwritable, hentries⟩ := Prod.mk.inj hmade
  have hmem : ⟨⟨0x02, some 2, false, .number 100 true⟩, 1, 1, true⟩ ∈ st.plan.writable := by
    rw [hwritable]
    exact List.mem_singleton_self _
  obtain ⟨e, hentry, hround⟩ := types_round_trip speakingEnv none [.setup sampleThermostat]
    speaks_speakingEnv st hst _ hmem
  have he : st.entries[1]? = some sampleSetpoint := by rw [hentries]; rfl
  obtain rfl := Option.some.inj (he.symm.trans hentry)
  obtain ⟨t, ht, hwrites, hreads, -⟩ := hround rfl (by decide)
  obtain rfl : Typed.number (b16 2 100) = t := Option.some.inj ht
  refine ⟨st, _, hst, hmem, rfl, ?_, ?_⟩
  · exact hwrites ⟨0x02, [0x5A, 0xF6]⟩ rfl trivial
  · have hsteps : (b16 2 100).steps 21.504 = 2150 := by decide +kernel
    refine hreads (.number 21.504) (.number 2150 100) ?_
    have hconveys := @Conveys.number sampleSetpoint.signed (b16 2 100) 21.504 trivial
      (by rw [hsteps]; decide)
    rwa [hsteps] at hconveys

end BTHomeWritable.Agreement
