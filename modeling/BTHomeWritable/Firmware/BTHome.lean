import BTHomeWritable.Firmware.Taking
import BTHomeWritable.Lib.TwosComplement
import Mathlib.Algebra.Order.Round
import Mathlib.Data.Rat.Floor

/-!
# Types, and what is learned about them

The module "BTHome" (`espruino/vendor/BTHome.js`) knows for every type how a value
becomes an object; `writableSpec` asks it for the objects of 1 and 2, and takes
the rest from there.  What it learns is right: the value of a write is decoded to
what the type encodes as that value again.

* `DEV`, `BOOL` and `getAdvertisement` are the module's; `encodeOne` is how it is
  asked for one object.
* `typed` sorts the types that can be written: a text, a number of some width and
  scale, or a flag.  `sensible_of_dev` goes through the table once and says what is
  `Sensible` about every number in it; the rest is arithmetic over any such number.
* `encodeOne_number` is what a number becomes and `steps_of_spans` which numbers of
  steps there is room for.
* `learned` is what `writableSpec` makes of a type that can be written, and
  `refused` what it answers for the others.

Numbers are rationals.  A conversion that the types here have no use for (a text
where a number is wanted, the text of a number, a fraction as an element) is left
out, and so is an object whose elements are not all bytes.
-/

namespace BTHomeWritable.Firmware.BTHome

open Device TwosComplement

/-! ## The module "BTHome" -/

/-- `e.v`. -/
inductive Input where
  | number (x : ℚ)
  | boolean (b : Bool)
  | text (chars : List Char)
  | bytes (b : Bytes)

inductive Failure where
  | thrown
  | leftOut
  deriving DecidableEq

def Input.toNumber : Input → Option ℚ
  | .number x => some x
  | .boolean b => some (if b then 1 else 0)
  | .text _ | .bytes _ => none

def Input.truthy : Input → Bool
  | .number x => x ≠ 0
  | .boolean b => b
  | .text chars => chars ≠ []
  | .bytes _ => true

/-- `0|x`. -/
def truncated (x : ℚ) : ℤ := (BitVec.ofInt 32 (if 0 ≤ x then ⌊x⌋ else ⌈x⌉)).toInt

/-- How a type of `DEV` makes an object of a number. -/
inductive Numeric where
  /-- `b16`, `b24` and `b32`. -/
  | wide (id : UInt8) (width : ℕ) (m : ℕ)
  /-- `E.clip(Math.round(e.v),0,100)`. -/
  | clipped (id : UInt8)
  /-- `0|e.v`. -/
  | whole (id : UInt8)
  /-- `Math.round(e.v)`. -/
  | rounded (id : UInt8)
  deriving DecidableEq

def b16 (id : UInt8) (m : ℕ) : Numeric := .wide id 2 m
def b24 (id : UInt8) (m : ℕ) : Numeric := .wide id 3 m
def b32 (id : UInt8) (m : ℕ) : Numeric := .wide id 4 m

/-- The numbers among `DEV`. -/
def DEV (type : String) : Option Numeric :=
  match type with
  | "battery" => some (.clipped 1)
  | "temperature" => some (b16 2 100)
  | "illuminance" => some (b24 5 100)
  | "count" => some (.whole 0x09)
  | "count16" => some (b16 0x3D 1)
  | "count32" => some (b32 0x3E 1)
  | "current" => some (b16 0x5D 1000)
  | "duration" => some (b16 0x42 1000)
  | "energy" => some (b32 0x4D 1000)
  | "gas" => some (b32 0x4C 1)
  | "humidity" => some (.rounded 0x2E)
  | "humidity16" => some (b16 3 100)
  | "moisture" => some (b16 0x14 100)
  | "power" => some (b24 0x0B 100)
  | "pressure" => some (b24 4 100)
  | "rotation" => some (b16 0x3F 10)
  | "volume" => some (b16 0x4E 10)
  | "voltage" => some (b16 0x0C 1000)
  | "co2" => some (b16 0x12 1)
  | "tvoc" => some (b16 0x13 1)
  | _ => none

def BOOL (type : String) : Option UInt8 :=
  match type with
  | "generic" => some 0x0F
  | "battery_low" => some 0x15
  | "battery_charge" => some 0x16
  | "cold" => some 0x18
  | "connected" => some 0x19
  | "door" => some 0x1A
  | "garage_door" => some 0x1B
  | "boolean" => some 0x0F
  | "heat" => some 0x1D
  | "light" => some 0x1E
  | "locked" => some 0x1F
  | "motion" => some 0x21
  | "moving" => some 0x22
  | "occupancy" => some 0x23
  | "opening" => some 0x11
  | "power_on" => some 0x10
  | "presence" => some 0x25
  | "problem" => some 0x26
  | "tamper" => some 0x2B
  | "vibration" => some 0x2C
  | _ => none

/-- The texts of `button_event`. -/
def events : List String :=
  ["none", "press", "double_press", "triple_press", "long_press", "long_double_press",
    "long_triple_press"]

def Numeric.elements (n : Numeric) (x : ℚ) : List ℤ :=
  match n with
  | .wide id width m =>
      let v := round (x * m)
      id.toNat :: (List.range width).map fun i => (shiftAndMask v i : ℤ)
  | .clipped id => [id.toNat, min (max (round x) 0) 100]
  | .whole id => [id.toNat, truncated x]
  | .rounded id => [id.toNat, round x]

/-- `text`. -/
def textElements : Input → Except Failure (List ℤ)
  | .text chars => .ok (0x53 :: chars.length :: chars.map fun c => (c.toNat : ℤ))
  | _ => .error .leftOut

/-- `button_event`. -/
def buttonElements : Input → Except Failure (List ℤ)
  | .text chars =>
      if String.ofList chars ∈ events then .ok [0x3A, events.idxOf (String.ofList chars)]
      else .error .thrown
  | _ => .error .thrown

/-- `dimmer_event`. -/
def dimmerElements (v : Input) : Except Failure (List ℤ) :=
  match v.toNumber with
  | none => .error .leftOut
  | some x =>
      if x.den ≠ 1 then .error .leftOut
      else if x < 0 then .ok [0x3C, 1, -x.num]
      else if 0 < x then .ok [0x3C, 2, x.num]
      else .ok [0x3C, 0, 0]

/-- `raw`: the value is the object. -/
def rawElements : Input → Except Failure (List ℤ)
  | .number x => if x.den = 1 then .ok [x.num] else .error .leftOut
  | .bytes b => .ok (b.map fun byte => (byte.toNat : ℤ))
  | .boolean _ | .text _ => .error .leftOut

/-- `getAdvertisement` of one device, without the three bytes it begins with.  The members of every
object are in `DEV` too. -/
def getAdvertisement (type : String) (v : Input) : Except Failure (List ℤ) :=
  if type ∈ OBJECT_MEMBERS then .error .leftOut
  else
    match DEV type with
    | some n =>
        match v.toNumber with
        | some x => .ok (n.elements x)
        | none => .error .leftOut
    | none =>
        if type = "text" then textElements v
        else if type = "button_event" then buttonElements v
        else if type = "dimmer_event" then dimmerElements v
        else
          match BOOL type with
          | some id => .ok [id.toNat, if v.truthy then 1 else 0]
          | none => if type = "raw" then rawElements v else .error .thrown

/-- The elements as bytes. -/
def objectOf : List ℤ → Except Failure Obj
  | [] => .error .leftOut
  | id :: value =>
      if ∀ b ∈ id :: value, 0 ≤ b ∧ b ≤ 255 then
        .ok ⟨UInt8.ofNat id.toNat, value.map fun b => UInt8.ofNat b.toNat⟩
      else .error .leftOut

/-- `encodeOne`. -/
def encodeOne (type : String) (v : Input) : Except Failure Obj :=
  match getAdvertisement type v with
  | .error failure => .error failure
  | .ok elements => objectOf elements

/-! ## The device's encoder -/

/-- What `writableSpec` probes with. -/
def probeInput : Probe → Input
  | .empty => .text []
  | .one => .number 1
  | .two => .number 2

/-- The device's encoder is the module "BTHome", wherever that is modelled. -/
structure Speaks (env : Env) : Prop where
  encodes : ∀ e p o, encodeOne e.type (probeInput p) = .ok o → env.probe e p = .ok o
  throws : ∀ e p, encodeOne e.type (probeInput p) = .error .thrown → ∃ f, env.probe e p = .error f

/-! ## Types that can be written -/

/-- What a type stands for, if an entry of it can be written without an id. -/
inductive Typed where
  | text
  | number (n : Numeric)
  | boolean (id : UInt8)
  deriving DecidableEq

def typed (type : String) : Option Typed :=
  match DEV type with
  | some n => some (.number n)
  | none => if type = "text" then some .text else (BOOL type).map .boolean

namespace Numeric

def id : Numeric → UInt8
  | .wide id _ _ | .clipped id | .whole id | .rounded id => id

def width : Numeric → ℕ
  | .wide _ width _ => width
  | .clipped _ | .whole _ | .rounded _ => 1

def scale : Numeric → ℕ
  | .wide _ _ m => m
  | .clipped _ | .whole _ | .rounded _ => 1

/-- The number of steps that a value becomes. -/
def steps (n : Numeric) (x : ℚ) : ℤ :=
  match n with
  | .wide _ _ m => round (x * m)
  | .clipped _ => min (max (round x) 0) 100
  | .whole _ => truncated x
  | .rounded _ => round x

/-- A width that the shifts reach, and a scale whose double fits. -/
structure Sensible (n : Numeric) : Prop where
  allowed : n.id ∉ FORBIDDEN
  no_event : n.id ∉ EVENT_IDS
  scaled : 0 < n.scale
  width : 1 ≤ n.width ∧ n.width ≤ 4
  wide : ∀ id width m, n = .wide id width m → 1 < width
  room : 2 * n.scale < 256 ^ n.width

/-- The numbers of steps that become their own bytes. -/
def Exact (n : Numeric) (v : ℤ) : Prop :=
  match n with
  | .wide _ _ _ => True
  | .clipped _ => 0 ≤ v ∧ v ≤ 100
  | .whole _ | .rounded _ => 0 ≤ v ∧ v ≤ 255

/-- The values that become bytes without being moved by more than a step. -/
def Spans (n : Numeric) (x : ℚ) : Prop :=
  match n with
  | .wide _ _ _ => True
  | .clipped _ => 0 ≤ x ∧ x ≤ 100
  | .whole _ | .rounded _ => 0 ≤ x ∧ x ≤ 255

end Numeric

/-- Whether a number of the type has a sign. -/
def Numeric.isSigned (n : Numeric) (signed : Option Bool) : Bool :=
  signed.getD (n.id ∈ SIGNED_IDS)

/-- What `writableSpec` makes of an entry of the type. -/
def Typed.spec (t : Typed) (signed : Option Bool) : WritableSpec :=
  match t with
  | .text => ⟨0x53, none, true, .text⟩
  | .number n => ⟨n.id, some n.width, false, .number n.scale (n.isSigned signed)⟩
  | .boolean id => ⟨id, some 1, false, .binary⟩

variable {n : Numeric} {type : String} {x : ℚ} {v : ℤ} {id : UInt8} {signed : Option Bool}

theorem sensible_of_dev (h : DEV type = some n) : n.Sensible := by
  unfold DEV at h
  split at h <;> cases h <;>
    exact ⟨by decide, by decide, by decide, by decide, by rintro _ _ _ ⟨⟩ <;> decide, by decide⟩

theorem not_member_of_dev (h : DEV type = some n) : type ∉ OBJECT_MEMBERS := by
  unfold DEV at h
  split at h <;> first | decide | cases h

theorem allowed_of_bool (h : BOOL type = some id) : id ∉ FORBIDDEN ∧ id ∉ EVENT_IDS := by
  unfold BOOL at h
  split at h <;> cases h <;> decide

/-- The names of truth values mean nothing else. -/
theorem only_of_bool (h : BOOL type = some id) : type ∉ OBJECT_MEMBERS ∧ DEV type = none ∧
    type ∉ ["text", "button_event", "dimmer_event", "raw"] := by
  unfold BOOL at h
  split at h <;> first | decide | cases h

/-! ## Numbers -/

@[simp] theorem ofNat_toNat (id : UInt8) : UInt8.ofNat (id.toNat : ℤ).toNat = id := by simp

theorem truncated_of_nonneg (hmin : 0 ≤ x) (hmax : x < 2147483648) : truncated x = ⌊x⌋ := by
  have hfloor : ⌊x⌋ < 2147483648 := Int.floor_lt.mpr (by exact_mod_cast hmax)
  have hnonneg : 0 ≤ ⌊x⌋ := Int.floor_nonneg.mpr hmin
  unfold truncated
  rw [if_pos hmin, BitVec.toInt_ofInt]
  exact Int.bmod_eq_of_le (by norm_num; omega) (by norm_num; omega)

theorem round_mem {k : ℕ} (hmin : 0 ≤ x) (hmax : x ≤ k) : 0 ≤ round x ∧ round x ≤ k := by
  rw [round_eq]
  constructor
  · exact Int.floor_nonneg.mpr (by linarith)
  · exact Int.floor_le_iff.mpr (by push_cast; linarith)

/-- Numbers of steps come back from what they are divided into. -/
theorem steps_div (h : n.Sensible) (hv : n.Exact v) : n.steps (v / n.scale) = v := by
  have hscale : (n.scale : ℚ) ≠ 0 := by exact_mod_cast h.scaled.ne'
  cases n with
  | wide id width m =>
      have hwhole : (v / m : ℚ) * m = v := div_mul_cancel₀ _ hscale
      simp only [Numeric.steps, Numeric.scale, hwhole, round_intCast]
  | clipped id =>
      obtain ⟨hmin, hmax⟩ : 0 ≤ v ∧ v ≤ 100 := hv
      simp only [Numeric.steps, Numeric.scale, Nat.cast_one, div_one, round_intCast]
      omega
  | whole id =>
      obtain ⟨hmin, hmax⟩ : 0 ≤ v ∧ v ≤ 255 := hv
      have hmin' : (0 : ℚ) ≤ v := by exact_mod_cast hmin
      have hmax' : (v : ℚ) < 2147483648 := by exact_mod_cast (by omega : v < 2147483648)
      simp only [Numeric.steps, Numeric.scale, Nat.cast_one, div_one]
      rw [truncated_of_nonneg hmin' hmax', Int.floor_intCast]
  | rounded id =>
      simp only [Numeric.steps, Numeric.scale, Nat.cast_one, div_one, round_intCast]

/-- The object of a number has its steps as bytes. -/
theorem objectOf_elements (h : n.Sensible)
    (hbyte : n.width = 1 → 0 ≤ n.steps x ∧ n.steps x ≤ 255) :
    objectOf (n.elements x) = .ok ⟨n.id, toBytes n.width (n.steps x)⟩ := by
  have hid : (0 : ℤ) ≤ n.id.toNat ∧ (n.id.toNat : ℤ) ≤ 255 := by
    have hlt := n.id.toNat_lt
    omega
  -- one byte that is what it holds
  have hsingle : ∀ v : ℤ, 0 ≤ v ∧ v ≤ 255 →
      objectOf [(n.id.toNat : ℤ), v] = .ok ⟨n.id, toBytes 1 v⟩ := by
    intro v hv
    have hlow : v % 256 = v := Int.emod_eq_of_lt hv.1 (by omega)
    simp [objectOf, hid, hv, toBytes, LittleEndian.toLE, hlow]
  cases n with
  | wide id width m =>
      have hmasked : ∀ i, (shiftAndMask (round (x * m)) i : ℤ) ≤ 255 := by
        intro i
        have hlt := shiftAndMask_lt (round (x * m)) i
        omega
      have hbytes : ∀ b ∈ (Numeric.wide id width m).elements x, 0 ≤ b ∧ b ≤ 255 := by
        intro b hb
        rcases List.mem_cons.mp hb with rfl | hb
        · exact hid
        · obtain ⟨i, -, rfl⟩ := List.mem_map.mp hb
          exact ⟨Int.natCast_nonneg _, hmasked i⟩
      have hvalue := map_shiftAndMask h.width.2 (round (x * m))
      unfold objectOf
      simp only [Numeric.elements] at hbytes ⊢
      rw [if_pos hbytes, ofNat_toNat, List.map_map]
      exact congrArg (fun value => Except.ok (Obj.mk id value)) hvalue
  | clipped id => exact hsingle _ (hbyte rfl)
  | whole id => exact hsingle _ (hbyte rfl)
  | rounded id => exact hsingle _ (hbyte rfl)

theorem getAdvertisement_number (h : DEV type = some n) (x : ℚ) :
    getAdvertisement type (.number x) = .ok (n.elements x) := by
  simp only [getAdvertisement, if_neg (not_member_of_dev h), h, Input.toNumber]

theorem encodeOne_number (h : DEV type = some n)
    (hbyte : n.width = 1 → 0 ≤ n.steps x ∧ n.steps x ≤ 255) :
    encodeOne type (.number x) = .ok ⟨n.id, toBytes n.width (n.steps x)⟩ := by
  simp only [encodeOne, getAdvertisement_number h]
  exact objectOf_elements (sensible_of_dev h) hbyte

theorem byte_of_exact (h : n.Sensible) (hv : n.Exact v) (hwidth : n.width = 1) :
    0 ≤ v ∧ v ≤ 255 := by
  cases n with
  | wide id width m =>
      have hlt := h.wide id width m rfl
      exact absurd hwidth hlt.ne'
  | clipped id => exact ⟨hv.1, hv.2.trans (by norm_num)⟩
  | whole id => exact hv
  | rounded id => exact hv

/-- Numbers of steps are encoded as their own bytes. -/
theorem encodeOne_div (h : DEV type = some n) (hv : n.Exact v) :
    encodeOne type (.number (v / n.scale)) = .ok ⟨n.id, toBytes n.width v⟩ := by
  have hsteps := steps_div (sensible_of_dev h) hv
  have hbyte : n.width = 1 → 0 ≤ n.steps (v / n.scale) ∧ n.steps (v / n.scale) ≤ 255 :=
    hsteps.symm ▸ byte_of_exact (sensible_of_dev h) hv
  rw [encodeOne_number h hbyte, hsteps]

/-- A value becomes its own bytes, and is moved by less than a step. -/
theorem steps_of_spans (h : n.Sensible) (hx : n.Spans x) :
    n.Exact (n.steps x) ∧ |(n.steps x : ℚ) - x * n.scale| < 1 := by
  have hrounded : ∀ y : ℚ, |(round y : ℚ) - y| < 1 := by
    intro y
    have hhalf := abs_sub_round y
    rw [abs_sub_comm]
    linarith
  cases n with
  | wide id width m => exact ⟨trivial, hrounded (x * m)⟩
  | clipped id =>
      obtain ⟨hmin, hmax⟩ := @round_mem x 100 hx.1 (by exact_mod_cast hx.2)
      have hkept : (Numeric.clipped id).steps x = round x := by
        simp only [Numeric.steps]
        omega
      rw [hkept]
      simpa [Numeric.Exact, Numeric.scale] using ⟨⟨hmin, hmax⟩, hrounded x⟩
  | whole id =>
      obtain ⟨hmin, hmax⟩ : 0 ≤ x ∧ x ≤ 255 := hx
      have hsteps : (Numeric.whole id).steps x = ⌊x⌋ :=
        truncated_of_nonneg hmin (by linarith)
      have hbelow := Int.floor_le x
      have habove := Int.lt_floor_add_one x
      have hfloor : ⌊x⌋ ≤ 255 := Int.floor_le_iff.mpr (by push_cast; linarith)
      rw [hsteps]
      refine ⟨⟨Int.floor_nonneg.mpr hmin, hfloor⟩, ?_⟩
      simp only [Numeric.scale, Nat.cast_one, mul_one, abs_lt]
      constructor <;> linarith
  | rounded id =>
      obtain ⟨hmin, hmax⟩ := @round_mem x 255 hx.1 (by exact_mod_cast hx.2)
      simpa [Numeric.Exact, Numeric.steps, Numeric.scale] using ⟨⟨hmin, hmax⟩, hrounded x⟩

theorem abs_steps_sub_lt (h : n.Sensible) (hx : n.Spans x) :
    |(n.steps x : ℚ) / n.scale - x| < 1 / n.scale := by
  have hscale : (0 : ℚ) < n.scale := by exact_mod_cast h.scaled
  have hsplit : (n.steps x : ℚ) / n.scale - x = (n.steps x - x * n.scale) / n.scale := by
    rw [sub_div, mul_div_cancel_right₀ _ hscale.ne']
  rw [hsplit, abs_div, abs_of_pos hscale]
  exact div_lt_div_of_pos_right (steps_of_spans h hx).2 hscale

/-! ## What is learned -/

/-- The probes of a number are its scale and the double of it. -/
theorem encodeOne_probe (h : DEV type = some n) :
    encodeOne type (.number 1) = .ok ⟨n.id, toBytes n.width n.scale⟩ ∧
      encodeOne type (.number 2) = .ok ⟨n.id, toBytes n.width (2 * n.scale)⟩ := by
  have hsensible := sensible_of_dev h
  have hscale : (n.scale : ℚ) ≠ 0 := by exact_mod_cast hsensible.scaled.ne'
  have hexact : n.Exact n.scale ∧ n.Exact (2 * n.scale) := by
    cases n <;> simp [Numeric.Exact, Numeric.scale]
  have htwo : ((2 * n.scale : ℤ) : ℚ) / n.scale = 2 := by
    push_cast
    exact mul_div_cancel_right₀ 2 hscale
  constructor
  · have hprobe := encodeOne_div h hexact.1
    rwa [show ((n.scale : ℤ) : ℚ) = n.scale from Int.cast_natCast _, div_self hscale] at hprobe
  · have hprobe := encodeOne_div h hexact.2
    rwa [htwo] at hprobe

theorem encodeOne_boolean (h : BOOL type = some id) (v : Input) :
    encodeOne type v = .ok ⟨id, [if v.truthy then 1 else 0]⟩ := by
  obtain ⟨hmember, hnone, hother⟩ := only_of_bool h
  simp only [List.mem_cons, List.not_mem_nil, or_false, not_or] at hother
  have hid : (id.toNat : ℤ) ≤ 255 := by
    have hlt := id.toNat_lt
    omega
  have helements : getAdvertisement type v = .ok [id.toNat, if v.truthy then 1 else 0] := by
    simp only [getAdvertisement, if_neg hmember, hnone, hother, if_false, h]
  rw [encodeOne, helements]
  cases v.truthy <;> simp [objectOf, hid]

/-- A text of bytes, and not too many of them. -/
theorem encodeOne_text {chars : List Char} (hlength : chars.length < 256)
    (hchars : ∀ c ∈ chars, c.toNat < 256) :
    encodeOne "text" (.text chars) =
      .ok ⟨0x53, UInt8.ofNat chars.length :: chars.map fun c => UInt8.ofNat c.toNat⟩ := by
  have hbytes : ∀ b ∈ (0x53 : ℤ) :: (chars.length : ℤ) :: chars.map fun c => (c.toNat : ℤ),
      0 ≤ b ∧ b ≤ 255 := by
    intro b hb
    rcases List.mem_cons.mp hb with rfl | hb
    · exact ⟨by norm_num, by norm_num⟩
    rcases List.mem_cons.mp hb with rfl | hb
    · omega
    · obtain ⟨c, hc, rfl⟩ := List.mem_map.mp hb
      have hlt := hchars c hc
      omega
  have helements : getAdvertisement "text" (.text chars) =
      .ok (0x53 :: chars.length :: chars.map fun c => (c.toNat : ℤ)) := rfl
  rw [encodeOne, helements]
  simp only [objectOf, if_pos hbytes]
  simp

variable {env : Env} {e : Entry} {t : Typed}

theorem Speaks.encoder (h : Speaks env) {p : Probe} {o : Obj}
    (hencode : encodeOne e.type (probeInput p) = .ok o) : env.encoder e p = .ok o := by
  rw [Env.encoder, h.encodes e p o hencode]
  rfl

theorem Speaks.encoder_throws (h : Speaks env) {p : Probe}
    (hencode : encodeOne e.type (probeInput p) = .error .thrown) :
    ∃ x, env.encoder e p = .error x := by
  obtain ⟨f, hf⟩ := h.throws e p hencode
  exact ⟨f.error, by rw [Env.encoder, hf]; rfl⟩

/-- Both probes of a number cannot be 1: one is the double of the other. -/
theorem not_both_one (n : Numeric) : ¬ ((toBytes n.width n.scale).length = 1 ∧
    (toBytes n.width n.scale).head? = some 1 ∧ (toBytes n.width (2 * n.scale)).head? = some 1) := by
  rintro ⟨hwidth, -, hdouble⟩
  rw [length_toBytes] at hwidth
  rw [hwidth] at hdouble
  have hsingle : toBytes 1 (2 * n.scale) = [1] := by
    obtain ⟨b, hb⟩ := List.length_eq_one_iff.mp (length_toBytes 1 (2 * n.scale))
    rw [hb] at hdouble ⊢
    exact congrArg (fun b => [b]) (Option.some.inj hdouble)
  have hodd := ofLE_toBytes 1 (2 * n.scale)
  rw [hsingle] at hodd
  have hone : (LittleEndian.ofLE [1] : ℤ) = 1 := rfl
  omega

theorem readUint_scale (h : n.Sensible) :
    readUint (n.id :: toBytes n.width n.scale) 1 (1 + n.width) = n.scale := by
  have hroom := h.room
  have hlow : (n.scale : ℤ) % (256 ^ n.width : ℕ) = n.scale := by
    refine Int.emod_eq_of_lt (Int.natCast_nonneg _) ?_
    exact_mod_cast lt_of_le_of_lt (Nat.le_mul_of_pos_left n.scale two_pos) hroom
  have hback := ofLE_toBytes n.width n.scale
  rw [hlow] at hback
  rw [readUint_eq_ofLE, Nat.add_comm, List.take_succ_cons, List.drop_succ_cons, List.drop_zero,
    List.take_of_length_le (length_toBytes _ _).le]
  exact_mod_cast hback

theorem learned_number (hspeaks : Speaks env) (hid : e.id = none) (hdev : DEV e.type = some n)
    (k : ℕ) : writableSpec env.encoder e k = .ok ((Typed.number n).spec e.signed) := by
  have hsensible := sensible_of_dev hdev
  have htext : e.type ∉ TEXT_TYPES := by
    intro hmem
    rw [List.mem_singleton.mp hmem] at hdev
    cases hdev
  have hraw : ¬ (e.type = "raw" ∨ n.id ∈ EVENT_IDS ∨ n.id ∈ FORBIDDEN) := by
    rintro (heq | hevent | hforbidden)
    · rw [heq] at hdev
      cases hdev
    · exact hsensible.no_event hevent
    · exact hsensible.allowed hforbidden
  obtain ⟨hone, htwo⟩ := encodeOne_probe hdev
  have hdiffer := not_both_one n
  rw [length_toBytes] at hdiffer
  unfold writableSpec
  simp only [hid, if_neg htext, hspeaks.encoder (p := .one) hone, hspeaks.encoder (p := .two) htwo,
    if_neg hraw, length_toBytes, if_neg hdiffer, readUint_scale hsensible,
    if_neg hsensible.scaled.ne']
  rfl

/-- What `writableSpec` learns about a type. -/
theorem learned (hspeaks : Speaks env) (hid : e.id = none) (ht : typed e.type = some t) (k : ℕ) :
    writableSpec env.encoder e k = .ok (t.spec e.signed) := by
  unfold typed at ht
  cases hdev : DEV e.type with
  | some n =>
      rw [hdev] at ht
      obtain rfl := Option.some.inj ht
      exact learned_number hspeaks hid hdev k
  | none =>
      rw [hdev] at ht
      simp only at ht
      by_cases htext : e.type = "text"
      · rw [if_pos htext] at ht
        obtain rfl := Option.some.inj ht
        have hempty : encodeOne e.type (probeInput .empty) = .ok ⟨0x53, [0]⟩ := by
          rw [htext]
          exact encodeOne_text (by simp) (by simp)
        have hmem : e.type ∈ TEXT_TYPES := List.mem_singleton.mpr htext
        simp only [writableSpec, hid, if_pos hmem, hspeaks.encoder hempty]
        rfl
      · rw [if_neg htext] at ht
        obtain ⟨id, hbool, rfl⟩ := Option.map_eq_some_iff.mp ht
        obtain ⟨-, -, hother⟩ := only_of_bool hbool
        simp only [List.mem_cons, List.not_mem_nil, or_false, not_or] at hother
        obtain ⟨hallowed, hevent⟩ := allowed_of_bool hbool
        have hprobe : ∀ x : ℚ, x ≠ 0 → encodeOne e.type (.number x) = .ok ⟨id, [1]⟩ := by
          intro x hx
          rw [encodeOne_boolean hbool]
          simp [Input.truthy, hx]
        have hone := hprobe 1 (by norm_num)
        have htwo := hprobe 2 (by norm_num)
        have hraw : ¬ (e.type = "raw" ∨ id ∈ EVENT_IDS ∨ id ∈ FORBIDDEN) := by
          simp [hother, hallowed, hevent]
        have hmem : e.type ∉ TEXT_TYPES := fun hmem => htext (List.mem_singleton.mp hmem)
        simp only [writableSpec, hid, if_neg hmem, hspeaks.encoder (p := .one) hone,
          hspeaks.encoder (p := .two) htwo, if_neg hraw]
        rfl

/-- A type that has to be declared by id is refused. -/
theorem refused (hspeaks : Speaks env) (hid : e.id = none) (hmember : e.type ∉ OBJECT_MEMBERS)
    (ht : typed e.type = none) (k : ℕ) : ∃ x, writableSpec env.encoder e k = .error x := by
  have hdev : DEV e.type = none := by
    unfold typed at ht
    cases hdev : DEV e.type with
    | none => rfl
    | some n => simp [hdev] at ht
  simp only [typed, hdev] at ht
  have htext : e.type ≠ "text" := by
    intro htext
    simp [htext] at ht
  have hbool : BOOL e.type = none := by simpa [htext] using ht
  have hmem : e.type ∉ TEXT_TYPES := fun hmem => htext (List.mem_singleton.mp hmem)
  have hthrown : encodeOne e.type (.number 1) = .error .thrown →
      ∃ x, writableSpec env.encoder e k = .error x := by
    intro hencode
    obtain ⟨x, hx⟩ := hspeaks.encoder_throws (p := .one) hencode
    simp only [writableSpec, hid, if_neg hmem, hx]
    exact ⟨_, rfl⟩
  have hprobed : ∀ one two : Obj, encodeOne e.type (.number 1) = .ok one →
      encodeOne e.type (.number 2) = .ok two → (e.type = "raw" ∨ one.id ∈ EVENT_IDS) →
      ∃ x, writableSpec env.encoder e k = .error x := by
    intro one two hone htwo hneeds
    have hraw : e.type = "raw" ∨ one.id ∈ EVENT_IDS ∨ one.id ∈ FORBIDDEN :=
      hneeds.imp id .inl
    simp only [writableSpec, hid, if_neg hmem, hspeaks.encoder (p := .one) hone,
      hspeaks.encoder (p := .two) htwo, if_pos hraw]
    exact ⟨_, rfl⟩
  by_cases hbutton : e.type = "button_event"
  · exact hthrown (by rw [hbutton]; rfl)
  by_cases hdimmer : e.type = "dimmer_event"
  · exact hprobed ⟨0x3C, [2, 1]⟩ ⟨0x3C, [2, 2]⟩ (by rw [hdimmer]; rfl) (by rw [hdimmer]; rfl)
      (.inr (by decide))
  by_cases hraw : e.type = "raw"
  · exact hprobed ⟨1, []⟩ ⟨2, []⟩ (by rw [hraw]; rfl) (by rw [hraw]; rfl) (.inl hraw)
  · refine hthrown ?_
    simp only [encodeOne, getAdvertisement, if_neg hmember, hdev, if_neg htext, if_neg hbutton,
      if_neg hdimmer, hbool, if_neg hraw]

end BTHomeWritable.Firmware.BTHome
