import BTHomeWritable.Lib.FirstSeen
import BTHomeWritable.Receiver.Duplicates
import BTHomeWritable.Receiver.Migration
import BTHomeWritable.Receiver.Scaled
import BTHomeWritable.Receiver.Sourcing

/-!
# The controls of a device, across restarts

The four platforms, `async_setup_entry` and `_remember_declaration`: which
entities a config entry has, and what of the declaration outlives a restart.
Each platform goes through the declaration at its setup and whenever the
coordinator notifies, and adds what it has not added before (`FirstSeen`).  What
is no longer declared stays, as a control that `stillDeclared` tells from the others.

`bthome-ble`'s table of objects and its event vocabularies are parameters, of
each record what `describe` reads.  A control is what its platform is asked to
add: the entry and object it was built for, the code of a button and the name.

* `uniqueId_inj` and `uniqueId_ne_resync`: the id of a control has its entry, its
  object and its code in it, so two controls share one only if they share these.
* `Marked` is the library's invariant of a platform's log, and `Knows` that every
  entry the platform is for has been through it; `declared_perm` puts the two
  together for what is still declared.
* `restored_stored`: what is remembered of a declaration is all of it.
* `ConfigEntry.Inv` holds of a config entry whether or not it is loaded, and
  `inv_act` is its step.

`Follows` is what controls owe the declaration at any moment and `Returns` what they
owe it across a restart; `controls_follow` is both, over every life of an entry.
-/

namespace BTHomeWritable.Receiver

/-! ## Objects that become controls -/

/-- A record of `MEAS_TYPES`; `measFormat` is the type's name. -/
structure Meas where
  measFormat : String
  dataFormat : String
  dataLength : ℕ
  factor : Option ℚ
  unit : Option String
  deviceClass : Option String

/-- `MEAS_TYPES`, `BUTTON_EVENTS` and `DIMMER_EVENTS`. -/
structure BTHomeBle where
  measTypes : UInt8 → Option Meas
  buttonEvents : List (ℕ × Option String)
  dimmerEvents : List (ℕ × Option String)
  buttonCodes : (buttonEvents.map Prod.fst).Nodup
  dimmerCodes : (dimmerEvents.map Prod.fst).Nodup

/-- `ObjectKind` with all its fields. -/
structure ObjectDescription extends ObjectKind where
  kind : String
  unit : Option String
  deviceClass : Option String
  dataFormat : String

namespace BTHomeBle

variable (ble : BTHomeBle)

def objectTable : ObjectTable := fun objectId =>
  (ble.measTypes objectId).map fun meas => (meas.dataFormat, meas.dataLength)

/-- The kind of an object; text and raw have an ordinary sensor's record. -/
def kindOf (meas : Meas) : String :=
  if meas.dataFormat ∈ LENGTH_PREFIXED_FORMATS then
    if meas.dataFormat = "raw" then "raw" else "string"
  else if meas.measFormat = "BaseBinarySensorDescription" then "binary"
  else if meas.measFormat = "EventDeviceKeys" then "event"
  else if meas.measFormat = "BaseSensorDescription" then "numeric"
  else "meta"

def describe (objectId : UInt8) : Option ObjectDescription :=
  (ble.measTypes objectId).map fun meas =>
    { kind := kindOf meas
      length := meas.dataLength
      signed := meas.dataFormat = "signed_integer"
      -- `or 1`
      factor := if meas.factor.getD 1 = 0 then 1 else meas.factor.getD 1
      unit := meas.unit
      deviceClass := meas.deviceClass
      dataFormat := meas.dataFormat }

/-- `describe(object_id).kind`. -/
def kind (objectId : UInt8) : Option String := (ble.describe objectId).map ObjectDescription.kind

/-- The events that have a name. -/
def named (events : List (ℕ × Option String)) : List (ℕ × String) :=
  events.filterMap fun event => event.2.map fun name => (event.1, name)

def eventValues (objectId : UInt8) : Option (List (ℕ × String)) :=
  if objectId = 0x3A then some (named ble.buttonEvents)
  else if objectId = 0x3C then some (named ble.dimmerEvents)
  else none

end BTHomeBle

inductive Platform where
  | button
  | number
  | switch
  | text
  deriving DecidableEq

def PLATFORMS : List Platform := [.button, .number, .switch, .text]

/-- The kind of object that a platform is for. -/
def Platform.kind : Platform → String
  | .button => "event"
  | .number => "numeric"
  | .switch => "binary"
  | .text => "string"

def isKind (ble : BTHomeBle) (kind : String) (entry : WritableEntry) : Bool :=
  entry.offered ble.kind && ble.kind entry.objectId = some kind

/-! ## Names -/

/-- `text.replace("_", " ").capitalize()`, of ASCII text. -/
def labelText (text : List Char) : List Char :=
  match text.map fun c => if c = '_' then ' ' else c with
  | [] => []
  | first :: rest => first.toUpper :: rest.map Char.toLower

/-- `Light`, or `Light 2` where several entries share the type. -/
def instanceLabel (declaration : Declaration) (entry : WritableEntry) (name : List Char) :
    List Char :=
  let same := declaration.entries.filter fun e => e.objectId = entry.objectId
  if same.length < 2 then name else name ++ ' ' :: Nat.toDigits 10 (same.idxOf entry + 1)

def typeLabel (ble : BTHomeBle) (entry : WritableEntry) (fallback : String) : List Char :=
  match (ble.describe entry.objectId).bind ObjectDescription.deviceClass with
  | none => fallback.toList
  | some deviceClass => if deviceClass = "" then fallback.toList else labelText deviceClass.toList

/-! ## Controls -/

/-- An entity of a platform; a button has the code of its event. -/
structure PlatformEntity where
  platform : Platform
  entry : WritableEntry
  code : Option ℕ
  name : List Char
  deriving DecidableEq

/-- What `build` of a platform makes of a declared entry. -/
def build (ble : BTHomeBle) (declaration : Declaration) (declared : WritableEntry) :
    Platform → List PlatformEntity
  | .button =>
      ((ble.eventValues declared.objectId).getD []).map fun event =>
        ⟨.button, declared, some event.1,
          instanceLabel declaration declared (labelText event.2.toList)⟩
  | .number =>
      [⟨.number, declared, none,
        instanceLabel declaration declared (typeLabel ble declared "Value")⟩]
  | .switch =>
      [⟨.switch, declared, none,
        instanceLabel declaration declared (typeLabel ble declared "Switch")⟩]
  | .text => [⟨.text, declared, none, instanceLabel declaration declared "Text".toList⟩]

def PlatformEntity.uniqueId (address : List Char) (e : PlatformEntity) : List Char :=
  match e.code with
  | none => entityUniqueId address e.entry.entry e.entry.objectId
  | some code => eventUniqueId address e.entry.entry e.entry.objectId code

/-- The resynchronise button's. -/
def resyncUniqueId (address : List Char) : List Char :=
  address ++ "-resync-write-counter".toList

/-- What a platform knows and has added. -/
abbrev Added := FirstSeen.Log (ℕ × UInt8) PlatformEntity

/-- The key of an entry in `known`. -/
def WritableEntry.key (entry : WritableEntry) : ℕ × UInt8 := (entry.entry, entry.objectId)

/-- `_sync` of a platform. -/
def syncPlatform (ble : BTHomeBle) (p : Platform) (declaration : Option Declaration)
    (added : Added) : Added :=
  match declaration with
  | none => added
  | some declaration =>
      FirstSeen.notes WritableEntry.key (isKind ble p.kind)
        (fun declared => build ble declaration declared p) added declaration.entries

/-! ## What a config entry remembers -/

/-- What a config entry can hold, of Python's values. -/
inductive PyValue where
  | none
  | bool (b : Bool)
  | int (n : ℤ)
  | float (x : ℚ)
  | str (text : String)
  | list (items : List PyValue)
  | dict (items : List (String × PyValue))

/-- `isinstance(value, int)`, which a bool is. -/
def PyValue.int? : PyValue → Option ℤ
  | .bool b => some (if b then 1 else 0)
  | .int n => some n
  | _ => Option.none

/-- `value.get(key)`, if there is such a method. -/
def PyValue.get (key : String) : PyValue → Option PyValue
  | .dict items => some ((items.lookup key).getD .none)
  | _ => Option.none

def Declaration.stored (d : Declaration) : PyValue :=
  .dict [("layout", .list (d.layout.map fun objectId => .int objectId.toNat)),
    ("settings_revision", match d.settingsRevision with
      | Option.none => .none
      | some revision => .int revision)]

/-- `isinstance(item, int) and 0 <= item <= 0xFF`: the object id. -/
def storedObjectId (item : PyValue) : Option UInt8 :=
  item.int?.bind fun n => if 0 ≤ n ∧ n ≤ 0xFF then some (UInt8.ofNat n.toNat) else Option.none

/-- `Declaration.restore`: the entries and the revision, which may be any number. -/
def restore (stored : PyValue) : Option (List WritableEntry × Option ℤ) :=
  match stored.get "layout", stored.get "settings_revision" with
  | some (.list layout), some revision =>
      match layout.mapM storedObjectId with
      | Option.none => Option.none
      | some ids =>
          match revision, revision.int? with
          | .none, _ => some (entriesFrom 1 ids, Option.none)
          | _, some n => some (entriesFrom 1 ids, some n)
          | _, Option.none => Option.none
  | _, _ => Option.none

/-- The declaration a coordinator is constructed with.  What `stored` wrote has no revision below
nought. -/
def restored (stored : PyValue) : Option Declaration :=
  (restore stored).map fun kept => ⟨kept.1, kept.2.map Int.toNat⟩

/-! ## A config entry's life -/

structure Loaded where
  coordinator : Coordinator
  /-- The platforms that have been set up. -/
  platforms : Platform → Option Added
  /-- The resynchronise button has been added. -/
  resync : Bool

structure ConfigEntry where
  /-- `entry.data.get(CONF_DECLARATION)`. -/
  declaration : PyValue
  loaded : Option Loaded

/-- What happens to a config entry.  At its setup, `last` is the stack's last advertisement of the
device; the platforms are set up in steps of their own. -/
inductive EntryAct where
  | setup (bindkey : Option Bytes) (writeCounter : ℤ) (last : Option Bytes)
  | forward (p : Platform)
  | act (a : CoordinatorAct)
  | notify
  | unload

namespace Coordinator

variable (aead : Aead) (table : ObjectTable) (address : List Char)

/-- `async_handle_advertisement` gets as far as `_notify`. -/
def notifies (s : Coordinator) (payload : Bytes) : Bool :=
  if payload.isEmpty then false
  else
    match (s.plaintext aead address payload).2 with
    | .ok (some objects) =>
        match parseDeclaration table objects with
        | .ok _ => true
        | .error _ => false
    | _ => false

end Coordinator

/-- `_on_declaration` is called for a declaration that is heard. -/
def isNews (remembered : Option Declaration) (heard : Declaration) : Bool :=
  match remembered with
  | Option.none => true
  | some known =>
      known.layout ≠ heard.layout || known.settingsRevision ≠ heard.settingsRevision

namespace ConfigEntry

def created : ConfigEntry := ⟨.none, Option.none⟩

variable (aead : Aead) (ble : BTHomeBle) (address : List Char)

/-- `_notify`, of the platforms' listeners. -/
def notified (l : Loaded) : Loaded :=
  { l with
    platforms := fun p => (l.platforms p).map (syncPlatform ble p l.coordinator.declaration) }

/-- `async_handle_advertisement`, with `_remember_declaration` and the listeners. -/
def hear (c : ConfigEntry) (l : Loaded) (payload : Bytes) : ConfigEntry :=
  let s := l.coordinator
  let l : Loaded :=
    { l with coordinator := s.handleAdvertisement aead ble.objectTable address payload }
  { declaration :=
      match s.hears aead ble.objectTable address payload with
      | Option.none => c.declaration
      | some heard => if isNews s.declaration heard then heard.stored else c.declaration
    loaded := some (if s.notifies aead ble.objectTable address payload then notified ble l else l) }

/-- `async_setup_entry`, up to the platforms. -/
def setup (c : ConfigEntry) (bindkey : Option Bytes) (writeCounter : ℤ) (last : Option Bytes) :
    ConfigEntry :=
  let l : Loaded :=
    ⟨Coordinator.start bindkey (restored c.declaration) writeCounter, fun _ => Option.none, false⟩
  match last with
  | Option.none => { c with loaded := some l }
  | some payload => hear aead ble address c l payload

/-- `async_setup_entry` of a platform. -/
def forward (l : Loaded) (p : Platform) : Loaded :=
  { l with
    platforms := Function.update l.platforms p
      (some (syncPlatform ble p l.coordinator.declaration FirstSeen.Log.empty))
    resync := if p = .button then l.coordinator.bindkey.isSome else l.resync }

def step (c : ConfigEntry) : EntryAct → ConfigEntry
  | .setup bindkey writeCounter last =>
      match c.loaded with
      | Option.none => setup aead ble address c bindkey writeCounter last
      | some _ => c
  | .forward p =>
      match c.loaded with
      | Option.none => c
      | some l =>
          if (l.platforms p).isSome then c else { c with loaded := some (forward ble l p) }
  | .act a =>
      match c.loaded, a with
      | Option.none, _ => c
      | some l, .advertise payload => hear aead ble address c l payload
      | some l, a =>
          { c with
            loaded :=
              some { l with coordinator := l.coordinator.step aead ble.objectTable address a } }
  | .notify => { c with loaded := c.loaded.map (notified ble) }
  | .unload => { c with loaded := Option.none }

end ConfigEntry

/-! ## Unique ids tell controls apart -/

/-- A number of base sixteen, as written. -/
def hexNumber (text : List Char) : ℕ :=
  text.foldl (fun n c => 16 * n + (Hex.value? c).getD 0) 0

theorem hexNumber_toDigits (n : ℕ) : hexNumber (Nat.toDigits 16 n) = n := by
  have hdigit : ∀ d < 16, (Hex.value? d.digitChar).getD 0 = d := by decide
  induction n using Nat.strong_induction_on with
  | h n ih =>
      rw [Nat.toDigits_eq_if (by decide)]
      split
      · rename_i hlt
        simp [hexNumber, hdigit n hlt]
      · rename_i hge
        have hrest := ih (n / 16) (by omega)
        have hlast := hdigit (n % 16) (by omega)
        unfold hexNumber at hrest ⊢
        rw [List.foldl_append, hrest, List.foldl_cons, List.foldl_nil, hlast]
        omega

theorem hexNumber_hexTwo (n : ℕ) : hexNumber (hexTwo n) = n := by
  have hzeros : ∀ (k : ℕ) (text : List Char),
      hexNumber (List.replicate k '0' ++ text) = hexNumber text := by
    intro k text
    induction k with
    | zero => rfl
    | succ k ih => exact ih
  rw [hexTwo, hzeros, hexNumber_toDigits]

theorem length_hexTwo (objectId : UInt8) : (hexTwo objectId.toNat).length = 2 := by
  have hshort : (Nat.toDigits 16 objectId.toNat).length ≤ 2 :=
    (Nat.length_toDigits_le_iff (by decide) (by decide)).mpr objectId.toNat_lt
  simp only [hexTwo, List.length_append, List.length_replicate]
  omega

/-- Up to the first dash texts are the same. -/
theorem dash_inj {x y rest rest' : List Char} (hx : '-' ∉ x) (hy : '-' ∉ y)
    (h : x ++ '-' :: rest = y ++ '-' :: rest') : x = y ∧ rest = rest' := by
  induction x generalizing y with
  | nil =>
      cases y with
      | nil => exact ⟨rfl, (List.cons.inj h).2⟩
      | cons c y => exact absurd (List.cons.inj h).1 fun hc => hy (hc ▸ List.mem_cons_self)
  | cons c x ih =>
      cases y with
      | nil => exact absurd (List.cons.inj h).1 fun hc => hx (hc ▸ List.mem_cons_self)
      | cons c' y =>
          obtain ⟨rfl, hrest⟩ := List.cons.inj h
          obtain ⟨hsame, htail⟩ := ih (fun hmem => hx (List.mem_cons_of_mem _ hmem))
            (fun hmem => hy (List.mem_cons_of_mem _ hmem)) hrest
          exact ⟨congrArg _ hsame, htail⟩

/-- What a code adds to an id. -/
def codeSuffix : Option ℕ → List Char
  | none => []
  | some code => '-' :: 'v' :: hexTwo code

theorem codeSuffix_inj {code code' : Option ℕ} (h : codeSuffix code = codeSuffix code') :
    code = code' := by
  cases code with
  | none =>
      cases code' with
      | none => rfl
      | some code' => cases h
  | some code =>
      cases code' with
      | none => cases h
      | some code' =>
          have htwo : hexTwo code = hexTwo code' := by simpa [codeSuffix] using h
          rw [← hexNumber_hexTwo code, htwo, hexNumber_hexTwo]

variable {address : List Char} {e e' : PlatformEntity}

theorem uniqueId_eq (address : List Char) (e : PlatformEntity) :
    e.uniqueId address = address ++ '-' :: 'e' :: (Nat.toDigits 10 e.entry.entry ++
      '-' :: (hexTwo e.entry.objectId.toNat ++ codeSuffix e.code)) := by
  unfold PlatformEntity.uniqueId
  cases e.code <;> simp [eventUniqueId, entityUniqueId, codeSuffix]

theorem uniqueId_inj (h : e.uniqueId address = e'.uniqueId address) :
    e.entry = e'.entry ∧ e.code = e'.code := by
  rw [uniqueId_eq, uniqueId_eq, List.append_cancel_left_eq, List.cons.injEq, List.cons.injEq] at h
  obtain ⟨hdigits, hrest⟩ := dash_inj (dash_notMem_toDigits e.entry.entry)
    (dash_notMem_toDigits e'.entry.entry) h.2.2
  have hlength : (hexTwo e.entry.objectId.toNat).length =
      (hexTwo e'.entry.objectId.toNat).length := by
    rw [length_hexTwo, length_hexTwo]
  obtain ⟨hobject, hcode⟩ := List.append_inj hrest hlength
  have hentry : e.entry.entry = e'.entry.entry := by
    rw [← @Nat.ofDigitChars_ten_toDigits e.entry.entry, hdigits, Nat.ofDigitChars_ten_toDigits]
  have hid : e.entry.objectId.toNat = e'.entry.objectId.toNat := by
    rw [← hexNumber_hexTwo e.entry.objectId.toNat, hobject, hexNumber_hexTwo]
  refine ⟨?_, codeSuffix_inj hcode⟩
  rw [show e.entry = ⟨e.entry.entry, e.entry.objectId⟩ from rfl, hentry, UInt8.toNat_inj.mp hid]

theorem uniqueId_ne_resync (e : PlatformEntity) : e.uniqueId address ≠ resyncUniqueId address := by
  rw [uniqueId_eq, resyncUniqueId, Ne, List.append_cancel_left_eq]
  intro h
  have hsecond : some 'e' = some 'r' := congrArg (fun text : List Char => text[1]?) h
  exact absurd hsecond (by decide)

/-! ## What a platform is asked to build -/

/-- Platform, entry and code of a control. -/
abbrev ControlMark := Platform × WritableEntry × Option ℕ

def PlatformEntity.mark (e : PlatformEntity) : ControlMark := (e.platform, e.entry, e.code)

/-- The marks of what a platform builds under a key. -/
def marksOf (ble : BTHomeBle) (p : Platform) (key : ℕ × UInt8) : List ControlMark :=
  match p with
  | .button => ((ble.eventValues key.2).getD []).map fun event => (p, ⟨key.1, key.2⟩, some event.1)
  | .number | .switch | .text => [(p, ⟨key.1, key.2⟩, none)]

/-- A platform is for entries of this key. -/
def Wanted (ble : BTHomeBle) (p : Platform) (key : ℕ × UInt8) : Prop :=
  isKind ble p.kind ⟨key.1, key.2⟩ = true

/-- What a declaration calls for on a platform. -/
def controls (ble : BTHomeBle) (p : Platform) : Option Declaration → List PlatformEntity
  | none => []
  | some d => (d.entries.filter (isKind ble p.kind)).flatMap fun declared => build ble d declared p

variable {ble : BTHomeBle} {p p' : Platform} {d : Declaration} {declared : WritableEntry}
variable {added : Added} {declaration : Option Declaration}

theorem mark_build (ble : BTHomeBle) (d : Declaration) (declared : WritableEntry) (p : Platform) :
    (build ble d declared p).map PlatformEntity.mark = marksOf ble p declared.key := by
  cases p with
  | button =>
      simp only [build, marksOf, List.map_map]
      rfl
  | number | switch | text => rfl

theorem nodup_named {events : List (ℕ × Option String)} (h : (events.map Prod.fst).Nodup) :
    ((BTHomeBle.named events).map Prod.fst).Nodup := by
  have hsub : ((BTHomeBle.named events).map Prod.fst).Sublist (events.map Prod.fst) := by
    induction events with
    | nil => exact List.Sublist.refl _
    | cons event rest ih =>
        have hrest := ih (List.nodup_cons.mp h).2
        obtain ⟨code, name⟩ := event
        cases name with
        | none => exact hrest.cons code
        | some name => exact hrest.cons_cons code
  exact hsub.nodup h

/-- The codes of a vocabulary are distinct. -/
theorem nodup_codes (ble : BTHomeBle) (objectId : UInt8) :
    (((ble.eventValues objectId).getD []).map Prod.fst).Nodup := by
  unfold BTHomeBle.eventValues
  split
  · exact nodup_named ble.buttonCodes
  split
  · exact nodup_named ble.dimmerCodes
  · exact List.nodup_nil

theorem nodup_marksOf (ble : BTHomeBle) (p : Platform) (key : ℕ × UInt8) :
    (marksOf ble p key).Nodup := by
  cases p with
  | button =>
      have hcodes := nodup_codes ble key.2
      have hmap : (marksOf ble .button key) =
          (((ble.eventValues key.2).getD []).map Prod.fst).map fun code =>
            (Platform.button, (⟨key.1, key.2⟩ : WritableEntry), some code) := by
        rw [List.map_map]
        rfl
      rw [hmap]
      refine hcodes.map ?_
      intro code code' h
      simpa using h
  | number | switch | text => exact List.nodup_singleton _

theorem platform_of_mem_marksOf {key : ℕ × UInt8} {m : ControlMark} (h : m ∈ marksOf ble p key) :
    m.1 = p ∧ m.2.1.key = key := by
  cases p with
  | button =>
      obtain ⟨event, -, rfl⟩ := List.mem_map.mp h
      exact ⟨rfl, rfl⟩
  | number | switch | text =>
      obtain rfl := List.mem_singleton.mp h
      exact ⟨rfl, rfl⟩

/-- No object is for two platforms. -/
theorem platform_unique (h : isKind ble p.kind declared = true)
    (h' : isKind ble p'.kind declared = true) : p = p' := by
  simp only [isKind, Bool.and_eq_true, decide_eq_true_eq] at h h'
  have hkind : p.kind = p'.kind := Option.some.inj (h.2.symm.trans h'.2)
  cases p <;> cases p' <;> first | rfl | exact absurd hkind (by decide)

/-! ## What a platform has added -/

/-- What a platform has added are the controls of the keys it knows. -/
abbrev Marked (ble : BTHomeBle) (p : Platform) (added : Added) : Prop :=
  FirstSeen.Marked PlatformEntity.mark (marksOf ble p) (Wanted ble p) added

/-- Every entry that a platform is for is known to it. -/
def Knows (ble : BTHomeBle) (p : Platform) (declaration : Option Declaration) (added : Added) :
    Prop :=
  ∀ d, declaration = some d → ∀ declared ∈ d.entries, isKind ble p.kind declared = true →
    declared.key ∈ added.known

theorem marked_sync (h : Marked ble p added) (declaration : Option Declaration) :
    Marked ble p (syncPlatform ble p declaration added) := by
  cases declaration with
  | none => exact h
  | some d =>
      exact h.notes (fun declared _ _ => mark_build ble d declared p) fun _ _ hwanted => hwanted

theorem knows_sync (declaration : Option Declaration) (added : Added) :
    Knows ble p declaration (syncPlatform ble p declaration added) := by
  rintro d rfl declared hmem hwanted
  exact FirstSeen.key_mem_known_notes hmem hwanted

/-- Entries are numbered as they are declared. -/
def Declaration.Numbered (d : Declaration) : Prop := d.entries = entriesFrom 1 d.layout

theorem Declaration.Numbered.nodup_keys (h : d.Numbered) :
    (d.entries.map WritableEntry.key).Nodup := by
  have hnumbers : d.entries.map WritableEntry.entry = List.range' 1 d.entries.length :=
    ((eq_entriesFrom_iff 1).mp h).2
  refine List.Nodup.of_map Prod.fst ?_
  have hfst : (d.entries.map WritableEntry.key).map Prod.fst =
      d.entries.map WritableEntry.entry := by
    rw [List.map_map]
    rfl
  rw [hfst, hnumbers]
  exact List.nodup_range'

/-- From nothing a platform adds what the declaration calls for. -/
theorem built_sync_empty (hnumbered : ∀ d, declaration = some d → d.Numbered) :
    (syncPlatform ble p declaration FirstSeen.Log.empty).built = controls ble p declaration := by
  cases declaration with
  | none => rfl
  | some d => exact FirstSeen.built_notes_empty (hnumbered d rfl).nodup_keys

/-- `still_declared`, of a declaration that is numbered. -/
theorem stillDeclared_iff {s : Coordinator} (hdeclared : s.declaration = some d)
    (hnumbered : d.Numbered) (e : WritableEntry) :
    s.stillDeclared e.entry e.objectId = true ↔ e ∈ d.entries := by
  have hget : ∀ i, d.entries[i]? = d.layout[i]?.map fun id => (⟨1 + i, id⟩ : WritableEntry) := by
    intro i
    rw [← Cache.getElem?_entriesFrom, ← hnumbered]
  have hentry : s.entry (e.entry : ℤ) =
      if 1 ≤ e.entry ∧ e.entry ≤ d.entries.length then d.entries[e.entry - 1]? else none := by
    have hnat : ((e.entry : ℤ) - 1).toNat = e.entry - 1 := by omega
    simp only [Coordinator.entry, hdeclared, hnat]
    norm_cast
  rw [Coordinator.stillDeclared, hentry]
  constructor
  · intro h
    split at h
    · exact absurd h (by simp)
    · rename_i found hfound
      split at hfound
      · have hid : found.objectId = e.objectId := by simpa using h
        rename_i hrange
        have hnumber : found.entry = e.entry := by
          rw [hget, Option.map_eq_some_iff] at hfound
          obtain ⟨id, -, rfl⟩ := hfound
          show 1 + (e.entry - 1) = e.entry
          omega
        have hsame : found = e := by
          rw [show found = ⟨found.entry, found.objectId⟩ from rfl, hid, hnumber]
        exact hsame ▸ List.mem_of_getElem? hfound
      · cases hfound
  · intro hmem
    obtain ⟨i, hi, hat⟩ := List.mem_iff_getElem.mp hmem
    have hat' : d.entries[i]? = some e := List.getElem?_eq_some_iff.mpr ⟨hi, hat⟩
    have hnumber : e.entry = 1 + i := by
      rw [hget, Option.map_eq_some_iff] at hat'
      obtain ⟨id, -, rfl⟩ := hat'
      rfl
    have hindex : e.entry - 1 = i := by omega
    rw [if_pos ⟨by omega, by omega⟩, hindex, hat']
    simp

/-- The controls of a platform that are still declared are those the declaration calls for, up to
their order. -/
theorem declared_perm {s : Coordinator} (hmarked : Marked ble p added)
    (hknows : Knows ble p s.declaration added)
    (hnumbered : ∀ d, s.declaration = some d → d.Numbered) :
    ((added.built.filter fun e => s.stillDeclared e.entry.entry e.entry.objectId).map
      PlatformEntity.mark).Perm ((controls ble p s.declaration).map PlatformEntity.mark) := by
  let live : ControlMark → Bool := fun m => s.stillDeclared m.2.1.entry m.2.1.objectId
  have hfilter : (added.built.filter fun e => s.stillDeclared e.entry.entry e.entry.objectId).map
      PlatformEntity.mark = (added.built.map PlatformEntity.mark).filter live := by
    rw [List.filter_map]
    rfl
  rw [hfilter]
  cases hdeclared : s.declaration with
  | none =>
      have hnone : (added.built.map PlatformEntity.mark).filter live = [] := by
        rw [List.filter_eq_nil_iff]
        intro m _
        simp [live, Coordinator.stillDeclared, Coordinator.entry, hdeclared]
      rw [hnone]
      exact List.Perm.refl _
  | some d =>
      have hd := hnumbered d hdeclared
      let current := (d.entries.filter (isKind ble p.kind)).map WritableEntry.key
      have hcalls : (controls ble p (some d)).map PlatformEntity.mark =
          current.flatMap (marksOf ble p) := by
        simp only [controls, current, List.map_flatMap, List.flatMap_map, mark_build]
      have hcurrent : current.Nodup :=
        (List.filter_sublist.map WritableEntry.key).nodup hd.nodup_keys
      have hknown : current ⊆ added.known := by
        intro key hkey
        obtain ⟨declared, hmem, rfl⟩ := List.mem_map.mp hkey
        exact hknows d hdeclared declared (List.mem_filter.mp hmem).1 (List.mem_filter.mp hmem).2
      rw [hcalls]
      -- of the marks of everything built, those of the present entries are left, each
      -- once
      refine hmarked.live_perm ?_ hcurrent hknown
      intro key hwanted m hm
      have hkey : m.2.1.key = key := (platform_of_mem_marksOf hm).2
      show s.stillDeclared m.2.1.entry m.2.1.objectId = true ↔ key ∈ current
      rw [stillDeclared_iff hdeclared hd, ← hkey]
      constructor
      · intro hmem
        rw [← hkey] at hwanted
        exact List.mem_map_of_mem (List.mem_filter.mpr ⟨hmem, hwanted⟩)
      · intro hmem
        obtain ⟨declared, hdeclared, hsame⟩ := List.mem_map.mp hmem
        obtain ⟨hentry, hid⟩ := Prod.mk.inj hsame
        have heq : declared = m.2.1 := by
          rw [show declared = ⟨declared.entry, declared.objectId⟩ from rfl, hentry, hid]
        exact heq ▸ (List.mem_filter.mp hdeclared).1

/-! ## What is remembered -/

/-- What was stored is restored. -/
theorem restored_stored (h : d.Numbered) : restored d.stored = some d := by
  have hid : ∀ id : UInt8, storedObjectId (.int id.toNat) = some id := by
    intro id
    have hlt : id.toNat < 256 := id.toNat_lt
    have hrange : (0 : ℤ) ≤ id.toNat ∧ (id.toNat : ℤ) ≤ 0xFF := by omega
    simp [storedObjectId, PyValue.int?, hrange]
  have hlayout : (d.layout.map fun id => PyValue.int id.toNat).mapM storedObjectId =
      some d.layout := by
    induction d.layout with
    | nil => rfl
    | cons id rest ih => rw [List.map_cons, List.mapM_cons, hid, ih]; rfl
  have hget : d.stored.get "layout" =
      some (.list (d.layout.map fun id => .int id.toNat)) := rfl
  obtain ⟨entries, revision⟩ := d
  unfold restored restore
  rw [hget]
  cases revision with
  | none =>
      have hrevision : (Declaration.stored ⟨entries, none⟩).get "settings_revision" =
          some .none := rfl
      simp only [hrevision, hlayout]
      exact congrArg (fun e => some (⟨e, none⟩ : Declaration)) h.symm
  | some revision =>
      have hrevision : (Declaration.stored ⟨entries, some revision⟩).get "settings_revision" =
          some (.int revision) := rfl
      simp only [hrevision, hlayout, PyValue.int?]
      exact congrArg (fun e => some (⟨e, some revision⟩ : Declaration)) h.symm

theorem eq_of_not_isNews {known heard : Declaration} (hknown : known.Numbered)
    (hheard : heard.Numbered) (h : isNews (some known) heard = false) : known = heard := by
  simp only [isNews, ne_eq, decide_not, Bool.or_eq_false_iff, Bool.not_eq_false',
    decide_eq_true_eq] at h
  obtain ⟨hlayout, hrevision⟩ := h
  have hentries : known.entries = heard.entries := by
    rw [hknown, hlayout, ← hheard]
  obtain ⟨entries, revision⟩ := known
  obtain ⟨entries', revision'⟩ := heard
  obtain rfl : entries = entries' := hentries
  obtain rfl : revision = revision' := hrevision
  rfl

/-! ## The invariant of a config entry -/

structure Loaded.Inv (ble : BTHomeBle) (remembered : PyValue) (l : Loaded) : Prop where
  numbered : ∀ d, l.coordinator.declaration = some d → d.Numbered
  remembers : restored remembered = l.coordinator.declaration
  platforms : ∀ p added, l.platforms p = some added →
    Marked ble p added ∧ Knows ble p l.coordinator.declaration added

structure ConfigEntry.Inv (ble : BTHomeBle) (c : ConfigEntry) : Prop where
  numbered : ∀ d, restored c.declaration = some d → d.Numbered
  loaded : ∀ l, c.loaded = some l → l.Inv ble c.declaration

namespace Coordinator

variable {aead : Aead} {table : ObjectTable} {s : Coordinator} {payload : Bytes}

theorem notifies_of_hears (h : s.hears aead table address payload = some d) :
    s.notifies aead table address payload = true := by
  cases hempty : payload.isEmpty with
  | true => simp [hears, hempty] at h
  | false =>
      simp only [hears, hempty, Bool.false_eq_true, if_false] at h
      simp only [notifies, hempty, Bool.false_eq_true, if_false]
      cases hplain : (s.plaintext aead address payload).2 with
      | error e => simp [hplain] at h
      | ok opened =>
          cases opened with
          | none => simp [hplain] at h
          | some objects =>
              simp only [hplain] at h
              cases hparse : parseDeclaration table objects with
              | error e => simp [hparse] at h
              | ok parsed => simp only [hparse]

/-- Only an advertisement moves the declaration. -/
theorem declaration_step {a : CoordinatorAct} (ha : ∀ payload, a ≠ .advertise payload) :
    (s.step aead table address a).declaration = s.declaration := by
  cases a with
  | advertise payload => exact absurd rfl (ha payload)
  | apply control value =>
      simp only [step]
      split <;> rfl
  | appear reachable => rfl
  | grant => rfl
  | transmit i challenge reply =>
      simp only [step, transmit]
      split
      · split
        · rfl
        split
        · rfl
        · split
          · rfl
          · split <;> rfl
      · rfl
  | acknowledge i raises =>
      simp only [step]
      split
      · split <;> rfl
      · rfl
  | finish i result raises =>
      simp only [step]
      split <;> rfl
  | cancel i => rfl

end Coordinator

namespace ConfigEntry

variable {aead : Aead} {c : ConfigEntry} {l : Loaded}

theorem inv_created : Inv ble created :=
  ⟨fun _ h => (by cases h), fun _ h => (by cases h)⟩

variable (aead ble address) in
/-- The declaration that a packet is heard with, and what is remembered of it. -/
theorem remembers_hear (hnumbered : ∀ d, l.coordinator.declaration = some d → d.Numbered)
    (hremembers : restored c.declaration = l.coordinator.declaration) (payload : Bytes) :
    restored (hear aead ble address c l payload).declaration =
      (l.coordinator.hears aead ble.objectTable address payload).or l.coordinator.declaration := by
  dsimp only [hear]
  split
  · rename_i hheard
    rw [hheard, Option.none_or, hremembers]
  · rename_i heard hheard
    have hd : heard.Numbered := Coordinator.numbered_of_hears hheard
    rw [hheard, Option.some_or]
    split
    · exact restored_stored hd
    · rename_i hnews
      rw [hremembers]
      cases hdeclared : l.coordinator.declaration with
      | none => simp [isNews, hdeclared] at hnews
      | some known =>
          rw [hdeclared, Bool.not_eq_true] at hnews
          rw [eq_of_not_isNews (hnumbered known hdeclared) hd hnews]

theorem numbered_hear (hnumbered : ∀ d, l.coordinator.declaration = some d → d.Numbered)
    (payload : Bytes) :
    ∀ d, (l.coordinator.hears aead ble.objectTable address payload).or l.coordinator.declaration =
      some d → d.Numbered := by
  intro d hd
  cases hheard : l.coordinator.hears aead ble.objectTable address payload with
  | none =>
      rw [hheard, Option.none_or] at hd
      exact hnumbered d hd
  | some heard =>
      rw [hheard, Option.some_or] at hd
      obtain rfl := Option.some.inj hd
      exact Coordinator.numbered_of_hears hheard

/-- An advertisement, on a coordinator that is loaded or one that is being set up. -/
theorem inv_hear (h : l.Inv ble c.declaration) (payload : Bytes) :
    Inv ble (hear aead ble address c l payload) := by
  have hremembers := remembers_hear address ble aead h.numbered h.remembers payload
  have hnumbered : ∀ d, (l.coordinator.hears aead ble.objectTable address payload).or
      l.coordinator.declaration = some d → d.Numbered := numbered_hear h.numbered payload
  have hmarked : ∀ p added, l.platforms p = some added → Marked ble p added :=
    fun p added hadded => (h.platforms p added hadded).1
  refine ⟨fun d hd => hnumbered d (hremembers.symm.trans hd), ?_⟩
  intro l' hl'
  obtain rfl := Option.some.inj hl'
  -- the declaration is in place before the listeners are called
  have hdeclared := @Coordinator.declaration_handleAdvertisement aead ble.objectTable address
    l.coordinator payload
  split
  · refine ⟨fun d hd => hnumbered d (hdeclared.symm.trans hd), hremembers.trans hdeclared.symm, ?_⟩
    intro p added hadded
    obtain ⟨before, hbefore, rfl⟩ := Option.map_eq_some_iff.mp hadded
    exact ⟨marked_sync (hmarked p before hbefore) _, knows_sync _ _⟩
  · rename_i hquiet
    have hsame : (l.coordinator.handleAdvertisement aead ble.objectTable address
        payload).declaration = l.coordinator.declaration := by
      cases hheard : l.coordinator.hears aead ble.objectTable address payload with
      | none => rw [hdeclared, hheard, Option.none_or]
      | some heard => exact absurd (Coordinator.notifies_of_hears hheard) hquiet
    refine ⟨fun d hd => hnumbered d (hdeclared.symm.trans hd), hremembers.trans hdeclared.symm, ?_⟩
    intro p added hadded
    obtain ⟨hmarks, hknows⟩ := h.platforms p added hadded
    exact ⟨hmarks, fun d hd => hknows d (hsame.symm.trans hd)⟩

theorem inv_notified {remembered : PyValue} (h : l.Inv ble remembered) :
    (notified ble l).Inv ble remembered := by
  refine ⟨h.numbered, h.remembers, ?_⟩
  intro p added hadded
  obtain ⟨before, hbefore, rfl⟩ := Option.map_eq_some_iff.mp hadded
  exact ⟨marked_sync (h.platforms p before hbefore).1 _, knows_sync _ _⟩

theorem inv_forward {remembered : PyValue} (h : l.Inv ble remembered) (p : Platform) :
    (forward ble l p).Inv ble remembered := by
  refine ⟨h.numbered, h.remembers, ?_⟩
  intro p' added hadded
  dsimp only [forward] at hadded
  by_cases hp : p' = p
  · subst hp
    rw [Function.update_self] at hadded
    obtain rfl := Option.some.inj hadded
    exact ⟨marked_sync FirstSeen.marked_empty _, knows_sync _ _⟩
  · rw [Function.update_of_ne hp] at hadded
    exact h.platforms p' added hadded

theorem inv_setup (h : Inv ble c) (bindkey : Option Bytes) (writeCounter : ℤ)
    (last : Option Bytes) : Inv ble (setup aead ble address c bindkey writeCounter last) := by
  have hstart : Loaded.Inv ble c.declaration
      ⟨Coordinator.start bindkey (restored c.declaration) writeCounter, fun _ => none, false⟩ :=
    ⟨h.numbered, rfl, fun _ _ hnone => by cases hnone⟩
  cases last with
  | none =>
      refine ⟨h.numbered, ?_⟩
      intro l hl
      obtain rfl := Option.some.inj hl
      exact hstart
  | some payload => exact inv_hear hstart payload

theorem inv_act {remembered : PyValue} (h : l.Inv ble remembered) {a : CoordinatorAct}
    (ha : ∀ payload, a ≠ .advertise payload) :
    Loaded.Inv ble remembered
      { l with coordinator := l.coordinator.step aead ble.objectTable address a } := by
  have hdeclared : (l.coordinator.step aead ble.objectTable address a).declaration =
      l.coordinator.declaration := Coordinator.declaration_step ha
  refine ⟨fun d hd => h.numbered d (hdeclared.symm.trans hd), h.remembers.trans hdeclared.symm, ?_⟩
  intro p added hadded
  obtain ⟨hmarks, hknows⟩ := h.platforms p added hadded
  exact ⟨hmarks, fun d hd => hknows d (hdeclared.symm.trans hd)⟩

theorem Inv.step (h : Inv ble c) (a : EntryAct) : Inv ble (step aead ble address c a) := by
  cases a with
  | setup bindkey writeCounter last =>
      simp only [ConfigEntry.step]
      split
      · exact inv_setup h bindkey writeCounter last
      · exact h
  | forward p =>
      simp only [ConfigEntry.step]
      split
      · exact h
      · rename_i l hl
        split
        · exact h
        · refine ⟨h.numbered, ?_⟩
          intro l' hl'
          obtain rfl := Option.some.inj hl'
          exact inv_forward (h.loaded l hl) p
  | act a =>
      simp only [ConfigEntry.step]
      split
      · exact h
      · rename_i l payload hl
        exact inv_hear (h.loaded l hl) payload
      · rename_i l hl ha
        refine ⟨h.numbered, ?_⟩
        intro l' hl'
        obtain rfl := Option.some.inj hl'
        exact inv_act (h.loaded l hl) fun payload heq => ha payload heq
  | notify =>
      refine ⟨h.numbered, ?_⟩
      intro l' hl'
      obtain ⟨l, hl, rfl⟩ := Option.map_eq_some_iff.mp hl'
      exact inv_notified (h.loaded l hl)
  | unload => exact ⟨h.numbered, fun _ hnone => by cases hnone⟩

theorem inv_run (acts : List EntryAct) :
    Inv ble (Runs.run (step aead ble address) created acts) :=
  Runs.run_invariant (P := fun _ _ => True) (fun _ a h _ => h.step a) inv_created
    (Runs.Along.of_forall fun _ _ => trivial)

end ConfigEntry

/-! ## Names -/

/-- Entries of one type have names of their own. -/
theorem instanceLabel_inj {entry entry' : WritableEntry} {name : List Char}
    (hentry : entry ∈ d.entries) (hentry' : entry' ∈ d.entries)
    (htype : entry.objectId = entry'.objectId)
    (h : instanceLabel d entry name = instanceLabel d entry' name) : entry = entry' := by
  have hmem : entry ∈ d.entries.filter fun e => e.objectId = entry'.objectId :=
    List.mem_filter.mpr ⟨hentry, by simpa using htype⟩
  have hmem' : entry' ∈ d.entries.filter fun e => e.objectId = entry'.objectId :=
    List.mem_filter.mpr ⟨hentry', by simp⟩
  unfold instanceLabel at h
  rw [htype] at h
  dsimp only at h
  generalize (d.entries.filter fun e => e.objectId = entry'.objectId) = same at h hmem hmem'
  split at h
  · rename_i hshort
    match same, hshort, hmem, hmem' with
    | [only], _, hmem, hmem' =>
        rw [List.mem_singleton] at hmem hmem'
        rw [hmem, hmem']
  · rw [List.append_cancel_left_eq, List.cons.injEq] at h
    have hindex : same.idxOf entry + 1 = same.idxOf entry' + 1 := by
      rw [← @Nat.ofDigitChars_ten_toDigits (same.idxOf entry + 1), h.2,
        Nat.ofDigitChars_ten_toDigits]
    exact (List.idxOf_inj hmem).mp (by omega)

theorem mem_build {e : PlatformEntity} (h : e ∈ build ble d declared p) :
    e.platform = p ∧ e.entry = declared := by
  cases p with
  | button =>
      obtain ⟨event, -, rfl⟩ := List.mem_map.mp h
      exact ⟨rfl, rfl⟩
  | number | switch | text =>
      obtain rfl := List.mem_singleton.mp h
      exact ⟨rfl, rfl⟩

theorem typeLabel_congr {declared' : WritableEntry} (htype : declared.objectId = declared'.objectId)
    (fallback : String) : typeLabel ble declared fallback = typeLabel ble declared' fallback := by
  unfold typeLabel
  rw [htype]

/-- What is before the number of a name is the object's, and the event's. -/
theorem name_build {declared' : WritableEntry} (htype : declared.objectId = declared'.objectId)
    (he : e ∈ build ble d declared p) (he' : e' ∈ build ble d declared' p)
    (hcode : e.code = e'.code) : ∃ name, e.name = instanceLabel d declared name ∧
      e'.name = instanceLabel d declared' name := by
  cases p with
  | button =>
      obtain ⟨event, hevent, rfl⟩ := List.mem_map.mp he
      obtain ⟨event', hevent', rfl⟩ := List.mem_map.mp he'
      rw [htype] at hevent
      obtain rfl : event = event' :=
        List.inj_on_of_nodup_map (nodup_codes ble declared'.objectId) hevent hevent'
          (Option.some.inj hcode)
      exact ⟨_, rfl, rfl⟩
  | number =>
      obtain rfl := List.mem_singleton.mp he
      obtain rfl := List.mem_singleton.mp he'
      refine ⟨typeLabel ble declared "Value", rfl, ?_⟩
      rw [typeLabel_congr htype]
  | switch =>
      obtain rfl := List.mem_singleton.mp he
      obtain rfl := List.mem_singleton.mp he'
      refine ⟨typeLabel ble declared "Switch", rfl, ?_⟩
      rw [typeLabel_congr htype]
  | text =>
      obtain rfl := List.mem_singleton.mp he
      obtain rfl := List.mem_singleton.mp he'
      exact ⟨_, rfl, rfl⟩

theorem Marked.nodup (h : Marked ble p added) : (added.built.map PlatformEntity.mark).Nodup :=
  FirstSeen.Marked.nodup_marks h (fun _ _ hm => (platform_of_mem_marksOf hm).2)
    (nodup_marksOf ble p)

/-- No two controls of a platform for one object and event have one name. -/
theorem nodup_names (hnumbered : ∀ d, declaration = some d → d.Numbered) :
    ((controls ble p declaration).map fun e => (e.entry.objectId, e.code, e.name)).Nodup := by
  have hmarks : ((controls ble p declaration).map PlatformEntity.mark).Nodup := by
    rw [← built_sync_empty hnumbered]
    exact Marked.nodup (marked_sync FirstSeen.marked_empty declaration)
  refine List.Nodup.map_on ?_ (List.Nodup.of_map _ hmarks)
  intro e he e' he' hsame
  obtain ⟨hid, hcode, hname⟩ : e.entry.objectId = e'.entry.objectId ∧ e.code = e'.code ∧
      e.name = e'.name := by
    simpa using hsame
  cases declaration with
  | none => exact absurd he List.not_mem_nil
  | some d =>
      obtain ⟨declared, hdeclared, hbuilt⟩ := List.mem_flatMap.mp he
      obtain ⟨declared', hdeclared', hbuilt'⟩ := List.mem_flatMap.mp he'
      obtain ⟨hplatform, rfl⟩ := mem_build hbuilt
      obtain ⟨hplatform', rfl⟩ := mem_build hbuilt'
      obtain ⟨name, hlabel, hlabel'⟩ := name_build hid hbuilt hbuilt' hcode
      have hentry : e.entry = e'.entry := by
        apply instanceLabel_inj (List.mem_filter.mp hdeclared).1
          (List.mem_filter.mp hdeclared').1 hid
        rw [← hlabel, ← hlabel', hname]
      apply List.inj_on_of_nodup_map hmarks he he'
      rw [PlatformEntity.mark, PlatformEntity.mark, hplatform, hplatform', hentry, hcode]

/-! ## Controls follow the declaration -/

/-- All controls of a config entry. -/
def Loaded.entities (l : Loaded) : List PlatformEntity :=
  PLATFORMS.flatMap fun p => ((l.platforms p).map FirstSeen.Log.built).getD []

def Loaded.uniqueIds (address : List Char) (l : Loaded) : List (List Char) :=
  l.entities.map (PlatformEntity.uniqueId address) ++
    if l.resync then [resyncUniqueId address] else []

/-- No unique id is given twice, and the controls that are still declared are those of the present
declaration. -/
structure Follows (ble : BTHomeBle) (address : List Char) (l : Loaded) : Prop where
  distinct : (l.uniqueIds address).Nodup
  declared : ∀ p added, l.platforms p = some added →
    ((added.built.filter fun e =>
        l.coordinator.stillDeclared e.entry.entry e.entry.objectId).map PlatformEntity.mark).Perm
      ((controls ble p l.coordinator.declaration).map PlatformEntity.mark)

variable {l : Loaded} {remembered : PyValue}

theorem mem_entities (h : l.Inv ble remembered) (he : e ∈ l.entities) :
    isKind ble e.platform.kind e.entry = true := by
  obtain ⟨p, -, hmem⟩ := List.mem_flatMap.mp he
  cases hadded : l.platforms p with
  | none => simp [hadded] at hmem
  | some added =>
      have hbuilt : e ∈ added.built := by simpa [hadded] using hmem
      have hmarked := (h.platforms p added hadded).1
      have hmark : e.mark ∈ added.known.flatMap (marksOf ble p) := by
        rw [← hmarked.marks]
        exact List.mem_map_of_mem hbuilt
      obtain ⟨key, hkey, hm⟩ := List.mem_flatMap.mp hmark
      obtain ⟨hplatform, hentry⟩ := platform_of_mem_marksOf hm
      have hwanted : isKind ble p.kind ⟨key.1, key.2⟩ = true := hmarked.called key hkey
      rw [← hentry, ← hplatform] at hwanted
      exact hwanted

theorem nodup_entities (h : l.Inv ble remembered) :
    (l.entities.map PlatformEntity.mark).Nodup := by
  have hplatform : ∀ p, ∀ m ∈ (((l.platforms p).map FirstSeen.Log.built).getD []).map
      PlatformEntity.mark, m.1 = p := by
    intro p m hm
    cases hadded : l.platforms p with
    | none => simp [hadded] at hm
    | some added =>
        have hmark : m ∈ added.built.map PlatformEntity.mark := by simpa [hadded] using hm
        rw [((h.platforms p added hadded).1).marks] at hmark
        obtain ⟨key, -, hm⟩ := List.mem_flatMap.mp hmark
        exact (platform_of_mem_marksOf hm).1
  rw [Loaded.entities, List.map_flatMap, List.nodup_flatMap]
  constructor
  · intro p _
    cases hadded : l.platforms p with
    | none => exact List.nodup_nil
    | some added => exact Marked.nodup (h.platforms p added hadded).1
  · have hdistinct : PLATFORMS.Pairwise (· ≠ ·) := by decide
    refine hdistinct.imp ?_
    intro p p' hne m hm hm'
    exact hne ((hplatform p m hm).symm.trans (hplatform p' m hm'))

theorem follows_of_inv (h : l.Inv ble remembered) (address : List Char) :
    Follows ble address l := by
  refine ⟨?_, fun p added hadded =>
    declared_perm (h.platforms p added hadded).1 (h.platforms p added hadded).2 h.numbered⟩
  have hmarks := nodup_entities h
  have hids : (l.entities.map (PlatformEntity.uniqueId address)).Nodup := by
    refine List.Nodup.map_on ?_ (List.Nodup.of_map _ hmarks)
    intro e he e' he' hid
    obtain ⟨hentry, hcode⟩ := uniqueId_inj hid
    have hkind := mem_entities h he
    have hkind' := mem_entities h he'
    rw [← hentry] at hkind'
    apply List.inj_on_of_nodup_map hmarks he he'
    rw [PlatformEntity.mark, PlatformEntity.mark, platform_unique hkind hkind', hentry, hcode]
  unfold Loaded.uniqueIds
  split
  · rw [List.nodup_append]
    refine ⟨hids, List.nodup_singleton _, ?_⟩
    intro id hid id' hid'
    obtain ⟨e, -, rfl⟩ := List.mem_map.mp hid
    obtain rfl := List.mem_singleton.mp hid'
    exact uniqueId_ne_resync e
  · simpa using hids

/-! ## Restarts -/

/-- A restart: the entry is unloaded, and set up while the device is silent. -/
def restart (bindkey : Option Bytes) (writeCounter : ℤ) : List EntryAct :=
  [.unload, .setup bindkey writeCounter none, .forward .button, .forward .number,
    .forward .switch, .forward .text]

/-- After a restart every control of the declaration is there again, under a name of its own. -/
structure Returns (ble : BTHomeBle) (before after : Loaded) : Prop where
  declaration : after.coordinator.declaration = before.coordinator.declaration
  rebuilt : ∀ p, (after.platforms p).map FirstSeen.Log.built =
    some (controls ble p before.coordinator.declaration)
  names : ∀ p, ((controls ble p before.coordinator.declaration).map fun e =>
    (e.entry.objectId, e.code, e.name)).Nodup
  resync : after.resync = after.coordinator.bindkey.isSome

theorem returns_restart (aead : Aead) (address : List Char) {c : ConfigEntry}
    (h : l.Inv ble c.declaration) (bindkey : Option Bytes) (writeCounter : ℤ) :
    ∃ l', (Runs.run (ConfigEntry.step aead ble address) c (restart bindkey writeCounter)).loaded =
      some l' ∧ Returns ble l l' := by
  refine ⟨_, rfl, h.remembers, ?_, fun p => nodup_names h.numbered, rfl⟩
  intro p
  have hbuilt : ∀ p, (syncPlatform ble p (restored c.declaration) FirstSeen.Log.empty).built =
      controls ble p l.coordinator.declaration := by
    intro p
    rw [h.remembers]
    exact built_sync_empty h.numbered
  cases p <;> exact congrArg some (hbuilt _)

/-- **The controls follow the declaration, across restarts.** -/
theorem controls_follow (aead : Aead) (ble : BTHomeBle) (address : List Char)
    (acts : List EntryAct) {l : Loaded}
    (hl : (Runs.run (ConfigEntry.step aead ble address) ConfigEntry.created acts).loaded = some l) :
    Follows ble address l ∧
      ∀ bindkey writeCounter, ∃ l',
        (Runs.run (ConfigEntry.step aead ble address) ConfigEntry.created
          (acts ++ restart bindkey writeCounter)).loaded = some l' ∧
        Follows ble address l' ∧ Returns ble l l' := by
  have hinv : ∀ acts, ConfigEntry.Inv ble
      (Runs.run (ConfigEntry.step aead ble address) ConfigEntry.created acts) :=
    ConfigEntry.inv_run
  refine ⟨follows_of_inv ((hinv acts).loaded l hl) address, ?_⟩
  intro bindkey writeCounter
  obtain ⟨l', hl', hreturns⟩ :=
    returns_restart aead address ((hinv acts).loaded l hl) bindkey writeCounter
  rw [← Runs.run_append] at hl'
  exact ⟨l', hl', follows_of_inv ((hinv _).loaded l' hl') address, hreturns⟩

/-- Two lights and a push button. -/
def sampleBle : BTHomeBle where
  measTypes id :=
    if id = 0x1E then
      some ⟨"BaseBinarySensorDescription", "unsigned_integer", 1, none, none, some "light"⟩
    else if id = 0x3A then some ⟨"EventDeviceKeys", "unsigned_integer", 1, none, none, none⟩
    else none
  buttonEvents := [(0, none), (1, some "press"), (2, some "double_press")]
  dimmerEvents := []
  buttonCodes := by decide
  dimmerCodes := by decide

def sampleLife : List EntryAct :=
  [.setup none 0 (some [0x40, 0xFF, 0x03, 0x1E, 0x1E, 0x3A]), .forward .button, .forward .switch]

def sampleEntry : ConfigEntry :=
  Runs.run (ConfigEntry.step (Aead.tagging [] []) sampleBle "C1:11:22:33:44:55".toList)
    ConfigEntry.created sampleLife

set_option maxRecDepth 4000 in
theorem controls_follow_sample : ∃ l, sampleEntry.loaded = some l ∧
    l.entities.map (fun e => String.ofList e.name) =
      ["Press", "Double press", "Light 1", "Light 2"] ∧
    Follows sampleBle "C1:11:22:33:44:55".toList l := by
  have hnames : sampleEntry.loaded.map (fun l => l.entities.map fun e => String.ofList e.name) =
      some ["Press", "Double press", "Light 1", "Light 2"] := by decide +kernel
  obtain ⟨l, hl, hl'⟩ := Option.map_eq_some_iff.mp hnames
  exact ⟨l, hl, hl', (controls_follow _ _ _ sampleLife hl).1⟩

end BTHomeWritable.Receiver
