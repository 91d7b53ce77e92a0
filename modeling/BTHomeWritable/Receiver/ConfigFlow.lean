import BTHomeWritable.Receiver.Duplicates

/-!
# Keys in the config flow

`config_flow.py`: how a device comes to be configured, and how its key is asked
for and changed.  A flow is run by Home Assistant's flow manager, which calls the
step of the form on show with what the user put in; what the manager and the
Bluetooth stack know at the time of a call is in `Surroundings`.  An exception
that is not an `AbortFlow` leaves the form on show.

Of a `BluetoothServiceInfoBleak` the address, the name and the BTHome service
data are used, of a config entry its unique id and `CONF_BINDKEY`.  The texts
around the forms are left out, and so is the options flow.

* `Works` says of a key and an advertisement that the coordinator of the entry
  opens it; `works_of_declarationFrom` gets it from what the flow itself has tried.
* `Ready` is what has to hold of a flow that shows the form of a step, and `Sound`
  what a step may come to.  There is one lemma for each step, `sound_stepUser` to
  `sound_stepReconfigure`.
* `FlowInv.answer` is the step of a run, and `keys_are_tried` the run.

`reconfigure_in_clear` is the exception that its docstring names: with an
advertisement in clear there is nothing to try a key on.
-/

namespace BTHomeWritable.Receiver

def BINDKEY_LENGTH : ℕ := 32

structure ServiceInfo where
  address : List Char
  name : String
  /-- `service_data.get(BTHOME_SERVICE_UUID)`. -/
  payload : Option Bytes
  deriving DecidableEq

/-! ## Keys as text -/

/-- `str.isspace` of one character. -/
def isPySpace (c : Char) : Bool :=
  let n := c.toNat
  (9 ≤ n && n ≤ 13) || (28 ≤ n && n ≤ 32) || n = 0x85 || n = 0xA0 || n = 0x1680 ||
    (0x2000 ≤ n && n ≤ 0x200A) || n = 0x2028 || n = 0x2029 || n = 0x202F || n = 0x205F || n = 0x3000

/-- `str.strip`. -/
def strip (text : List Char) : List Char :=
  ((text.dropWhile isPySpace).reverse.dropWhile isPySpace).reverse

/-- `text.strip().replace("-", "").replace(":", "")`. -/
def unseparated (text : List Char) : List Char :=
  ((strip text).filter (· ≠ '-')).filter (· ≠ ':')

def parseBindkey (text : List Char) : Option Bytes :=
  match fromhex (unseparated text) with
  | .error _ => none
  | .ok bindkey => if bindkey.length * 2 = BINDKEY_LENGTH then some bindkey else none

/-- `bindkey.hex()`. -/
def hexText (bindkey : Bytes) : List Char := bindkey.flatMap (Hex.byteText .lower)

/-- `bytes.fromhex(stored) if stored else None`, of an entry that is set up. -/
def storedBindkey : Option (List Char) → Except PyError (Option Bytes)
  | none | some [] => .ok none
  | some stored => (fromhex stored).map some

/-! ## What an advertisement says -/

def serviceData (info : ServiceInfo) : Option Bytes :=
  match info.payload with
  | some payload => if payload ≠ [] ∧ 2 ≤ payload.length then some payload else none
  | none => none

def needsBindkey (info : ServiceInfo) : Bool := (serviceData info).any isEncrypted

variable (aead : Aead) (table : ObjectTable) (describe : UInt8 → Option String)

/-- The object stream in `declaration_from`, if it can be had. -/
def objectsFrom (info : ServiceInfo) (payload : Bytes) (bindkey : Option Bytes) :
    Except PyError (Option Bytes) :=
  if isEncrypted payload then
    match bindkey with
    | none => .ok none
    | some bindkey => decryptAdvertising aead payload bindkey info.address
  else .ok (some (payload.drop (objectsAt payload)))

def declarationFrom (info : ServiceInfo) (bindkey : Option Bytes) :
    Except PyError (Option Declaration) :=
  match serviceData info with
  | none => .ok none
  | some payload =>
      match objectsFrom aead info payload bindkey with
      | .error e => .error e
      | .ok none => .ok none
      | .ok (some objects) =>
          match parseDeclaration table objects with
          | .error (.protocolError _) => .ok none
          | .error e => .error e
          | .ok declaration => .ok declaration

/-! ## Flows -/

inductive FlowSource where
  | bluetooth
  | user
  | reauth
  | reconfigure
  deriving DecidableEq

inductive FlowStep where
  | user
  | getEncryptionKey
  | confirm
  | reconfigure
  deriving DecidableEq

/-- What a step comes to; a form has its error, an entry its unique id and `CONF_BINDKEY`. -/
inductive FlowResult where
  | form (step : FlowStep) (error : Option String)
  | abort (reason : String)
  | createEntry (uniqueId : Option (List Char)) (title : String) (bindkey : Option (List Char))
  | updateEntry (uniqueId : List Char) (bindkey : Option (List Char))
  | raised
  deriving DecidableEq

/-- What is around a flow when a step of it is called. -/
structure Surroundings where
  /-- `async_discovered_service_info`. -/
  discovered : List ServiceInfo
  /-- The unique ids of the entries there are. -/
  configured : List (List Char)
  /-- Another flow has the unique id. -/
  inProgress : Bool

structure ConfigFlow where
  source : FlowSource
  uniqueId : Option (List Char)
  /-- The unique id of the entry that is reauthenticated or reconfigured. -/
  entry : List Char
  discovery : Option ServiceInfo
  declaration : Option Declaration
  bindkey : Option Bytes
  candidates : List ServiceInfo
  /-- The form on show. -/
  shown : Option FlowStep
  /-- What the steps so far have come to. -/
  results : List FlowResult

namespace ConfigFlow

def start (source : FlowSource) (entry : List Char) : ConfigFlow :=
  ⟨source, none, entry, none, none, none, [], none, []⟩

/-- `async_step_confirm` before the user has confirmed. -/
def showConfirm (flow : ConfigFlow) : ConfigFlow × FlowResult := (flow, .form .confirm none)

/-- What both ways to a device come to: its key is asked for, or its declaration looked at. -/
def lookAt (flow : ConfigFlow) (info : ServiceInfo) (nothing : String) : ConfigFlow × FlowResult :=
  let flow : ConfigFlow := { flow with discovery := some info }
  if needsBindkey info then (flow, .form .getEncryptionKey none)
  else
    match declarationFrom aead table info none with
    | .error _ => (flow, .raised)
    | .ok none => (flow, .abort "not_supported")
    | .ok (some declaration) =>
        if declaration.offered describe = [] then (flow, .abort nothing)
        else showConfirm { flow with declaration := some declaration }

def stepBluetooth (flow : ConfigFlow) (around : Surroundings) (info : ServiceInfo) :
    ConfigFlow × FlowResult :=
  if around.inProgress then (flow, .abort "already_in_progress")
  else
    let flow : ConfigFlow := { flow with uniqueId := some info.address }
    if info.address ∈ around.configured then (flow, .abort "already_configured")
    else flow.lookAt aead table describe info "nothing_writable"

def stepGetEncryptionKey (flow : ConfigFlow) (text : List Char) : ConfigFlow × FlowResult :=
  match flow.discovery with
  | none => (flow, .raised)
  | some info =>
      match parseBindkey text with
      | none => (flow, .form .getEncryptionKey (some "expected_32_characters"))
      | some bindkey =>
          match declarationFrom aead table info (some bindkey) with
          | .error _ => (flow, .raised)
          | .ok none => (flow, .form .getEncryptionKey (some "decryption_failed"))
          | .ok (some declaration) =>
              if declaration.offered describe = [] then (flow, .abort "nothing_writable")
              else
                let flow : ConfigFlow :=
                  { flow with bindkey := some bindkey, declaration := some declaration }
                if flow.source = .reauth then
                  (flow, .updateEntry flow.entry (some (hexText bindkey)))
                else showConfirm flow

/-- `sent` is the advertisement that came with the request. -/
def stepReauth (flow : ConfigFlow) (around : Surroundings) (sent : Option ServiceInfo) :
    ConfigFlow × FlowResult :=
  match sent.or (around.discovered.find? (·.address = flow.entry)) with
  | none => ({ flow with discovery := none }, .abort "not_on_the_air")
  | some info =>
      let flow : ConfigFlow := { flow with discovery := some info }
      if !needsBindkey info then (flow, .abort "reauth_successful")
      else (flow, .form .getEncryptionKey none)

def stepConfirm (flow : ConfigFlow) : ConfigFlow × FlowResult :=
  match flow.discovery, flow.declaration with
  | some info, some _ =>
      (flow, .createEntry flow.uniqueId info.name (flow.bindkey.map hexText))
  | _, _ => (flow, .raised)

def stepReconfigure (flow : ConfigFlow) (around : Surroundings) (input : Option (List Char)) :
    ConfigFlow × FlowResult :=
  match around.discovered.find? (·.address = flow.entry) with
  | none => (flow, .abort "not_on_the_air")
  | some info =>
      match input with
      | none => (flow, .form .reconfigure none)
      | some text =>
          let text := unseparated text
          if text = [] then
            if needsBindkey info then (flow, .form .reconfigure (some "bindkey_required"))
            else (flow, .updateEntry flow.entry none)
          else
            match parseBindkey text with
            | none => (flow, .form .reconfigure (some "expected_32_characters"))
            | some bindkey =>
                match declarationFrom aead table info (some bindkey) with
                | .error _ => (flow, .raised)
                | .ok none => (flow, .form .reconfigure (some "decryption_failed"))
                | .ok (some _) => (flow, .updateEntry flow.entry (some (hexText bindkey)))

/-- The advertisements worth a choice, or the exception at the first that raises. -/
def candidatesAmong (configured : List (List Char)) :
    List ServiceInfo → Except PyError (List ServiceInfo)
  | [] => .ok []
  | info :: rest =>
      if info.address ∈ configured then candidatesAmong configured rest
      else if needsBindkey info then (candidatesAmong configured rest).map (info :: ·)
      else
        match declarationFrom aead table info none with
        | .error e => .error e
        | .ok none => candidatesAmong configured rest
        | .ok (some declaration) =>
            if declaration.offered describe = [] then candidatesAmong configured rest
            else (candidatesAmong configured rest).map (info :: ·)

/-- `async_step_user` before a device has been picked. -/
def stepUser (flow : ConfigFlow) (around : Surroundings) : ConfigFlow × FlowResult :=
  match candidatesAmong aead table describe around.configured around.discovered with
  | .error _ => (flow, .raised)
  | .ok [] => ({ flow with candidates := [] }, .abort "no_devices_found")
  | .ok candidates => ({ flow with candidates := candidates }, .form .user none)

/-- `async_step_user` with the address that was picked; a later candidate of the same address has
taken the place of an earlier one. -/
def stepPicked (flow : ConfigFlow) (around : Surroundings) (address : List Char) :
    ConfigFlow × FlowResult :=
  let flow : ConfigFlow := { flow with uniqueId := some address }
  if address ∈ around.configured then (flow, .abort "already_configured")
  else
    match flow.candidates.reverse.find? (·.address = address) with
    | none => (flow, .raised)
    | some info => flow.lookAt aead table describe info "not_supported"

/-- What the manager makes of a result. -/
def conclude (step : ConfigFlow × FlowResult) : ConfigFlow :=
  let flow : ConfigFlow := { step.1 with results := step.1.results ++ [step.2] }
  match step.2 with
  | .form shown _ => { flow with shown := some shown }
  | .raised => flow
  | .abort _ | .createEntry .. | .updateEntry .. => { flow with shown := none }

/-- The form on show comes back with `text` in its field. -/
def answer (flow : ConfigFlow) (act : Surroundings × List Char) : ConfigFlow :=
  match flow.shown with
  | none => flow
  | some .user => conclude (flow.stepPicked aead table describe act.1 act.2)
  | some .getEncryptionKey => conclude (flow.stepGetEncryptionKey aead table describe act.2)
  | some .confirm => conclude flow.stepConfirm
  | some .reconfigure => conclude (flow.stepReconfigure aead table act.1 (some act.2))

/-- How a flow begins. -/
inductive Start where
  | bluetooth (info : ServiceInfo)
  | user
  | reauth (address : List Char) (sent : Option ServiceInfo)
  | reconfigure (address : List Char)

def first (around : Surroundings) : Start → ConfigFlow
  | .bluetooth info =>
      conclude ((start .bluetooth []).stepBluetooth aead table describe around info)
  | .user => conclude ((start .user []).stepUser aead table describe around)
  | .reauth address sent => conclude ((start .reauth address).stepReauth around sent)
  | .reconfigure address =>
      conclude ((start .reconfigure address).stepReconfigure aead table around none)

end ConfigFlow

/-! ## Keys that have been tried -/

/-- An entry with `stored` under `CONF_BINDKEY` is set up with a key of sixteen bytes or none, and
its coordinator takes the declaration `d` from the packet of `info`. -/
structure Works (info : ServiceInfo) (stored : Option (List Char)) (d : Declaration) : Prop where
  reads : ∃ bindkey, storedBindkey stored = .ok bindkey ∧ bindkey.isSome = stored.isSome ∧
    ∀ key ∈ bindkey, key.length = 16
  hears : ∀ bindkey remembered counter, storedBindkey stored = .ok bindkey →
    let s := (Coordinator.start bindkey remembered counter).handleAdvertisement aead table
      info.address (info.payload.getD [])
    s.declaration = some d ∧ (needsBindkey info = true → s.bindkeyVerified = some true)

/-- The key that goes into an entry was tried on an advertisement of the entry's device; only in
clear is an entry left without one. -/
def Vouched (Heard : ServiceInfo → Prop) (source : FlowSource) : FlowResult → Prop
  | .createEntry uniqueId title stored =>
      ∃ info d, Heard info ∧ uniqueId = some info.address ∧ title = info.name ∧
        d.offered describe ≠ [] ∧ (stored = none → needsBindkey info = false) ∧
        Works aead table info stored d
  | .updateEntry uniqueId stored =>
      ∃ info, Heard info ∧ uniqueId = info.address ∧ (stored = none → needsBindkey info = false) ∧
        (source = .reauth → needsBindkey info = true) ∧
        (stored.isSome = true → ∃ d, Works aead table info stored d)
  | .form .. | .abort _ | .raised => True

variable {aead table describe} {info : ServiceInfo} {d : Declaration} {bindkey : Option Bytes}

theorem length_parseBindkey {text : List Char} {key : Bytes} (h : parseBindkey text = some key) :
    key.length = 16 := by
  unfold parseBindkey at h
  split at h
  · cases h
  · split at h
    · rename_i hlength
      obtain rfl := Option.some.inj h
      unfold BINDKEY_LENGTH at hlength
      omega
    · cases h

theorem storedBindkey_hexText {key : Bytes} (h : key ≠ []) :
    storedBindkey (some (hexText key)) = .ok (some key) := by
  obtain ⟨b, rest, rfl⟩ := List.exists_cons_of_ne_nil h
  show (fromhex (hexText (b :: rest))).map some = _
  rw [hexText, fromhex_digits]
  rfl

theorem serviceData_eq_some {payload : Bytes} (h : serviceData info = some payload) :
    info.payload = some payload ∧ payload.isEmpty = false := by
  unfold serviceData at h
  cases hpayload : info.payload with
  | none =>
      rw [hpayload] at h
      cases h
  | some bytes =>
      simp only [hpayload] at h
      split at h
      · rename_i hlong
        obtain rfl := Option.some.inj h
        exact ⟨rfl, by simpa using hlong.1⟩
      · cases h

theorem declarationFrom_eq_some (h : declarationFrom aead table info bindkey = .ok (some d)) :
    ∃ payload objects, serviceData info = some payload ∧
      objectsFrom aead info payload bindkey = .ok (some objects) ∧
      parseDeclaration table objects = .ok (some d) := by
  unfold declarationFrom at h
  cases hdata : serviceData info with
  | none =>
      rw [hdata] at h
      cases h
  | some payload =>
      simp only [hdata] at h
      cases hobjects : objectsFrom aead info payload bindkey with
      | error e =>
          rw [hobjects] at h
          cases h
      | ok opened =>
          cases opened with
          | none =>
              rw [hobjects] at h
              cases h
          | some objects =>
              simp only [hobjects] at h
              refine ⟨payload, objects, rfl, hobjects, ?_⟩
              cases hparse : parseDeclaration table objects with
              | ok declaration =>
                  rw [hparse] at h
                  exact h
              | error e => cases e <;> simp [hparse] at h

/-- A coordinator that has just been set up opens what the flow opens. -/
theorem plaintext_start (remembered : Option Declaration) (counter : ℤ) {payload objects : Bytes}
    (h : objectsFrom aead info payload bindkey = .ok (some objects)) :
    let s := Coordinator.start bindkey remembered counter
    (s.plaintext aead info.address payload).2 = .ok (some objects) ∧
      (isEncrypted payload = true → s.opens aead info.address payload = some true) := by
  intro s
  unfold objectsFrom at h
  cases hsealed : isEncrypted payload with
  | false =>
      rw [hsealed] at h
      rw [Coordinator.plaintext_clear hsealed]
      exact ⟨h, fun hsealed => by cases hsealed⟩
  | true =>
      rw [hsealed, if_pos rfl] at h
      cases hkey : bindkey with
      | none =>
          rw [hkey] at h
          cases h
      | some key =>
          have hbindkey : s.bindkey = some key := hkey
          have hincreased : s.counterIncreased payload = true :=
            Coordinator.counterIncreased_unverified (by simp [s, Coordinator.start])
          rw [hkey] at h
          replace h : decryptAdvertising aead payload key info.address = .ok (some objects) := h
          rw [Coordinator.plaintext_sealed hbindkey hsealed]
          simp [Coordinator.opens, hsealed, hbindkey, hincreased, h]

theorem works_of_declarationFrom {stored : Option (List Char)}
    (hreads : storedBindkey stored = .ok bindkey) (hsome : bindkey.isSome = stored.isSome)
    (hlength : ∀ key ∈ bindkey, key.length = 16)
    (h : declarationFrom aead table info bindkey = .ok (some d)) :
    Works aead table info stored d := by
  refine ⟨⟨bindkey, hreads, hsome, hlength⟩, fun bindkey' remembered counter hreads' => ?_⟩
  obtain rfl : bindkey' = bindkey := Except.ok.inj (hreads'.symm.trans hreads)
  obtain ⟨payload, objects, hdata, hobjects, hparse⟩ := declarationFrom_eq_some h
  obtain ⟨hpayload, hne⟩ := serviceData_eq_some hdata
  obtain ⟨hopened, hopens⟩ := plaintext_start remembered counter hobjects
  simp only [hpayload, Option.getD_some]
  constructor
  · rw [Coordinator.declaration_handleAdvertisement, Coordinator.hears]
    simp only [hne, Bool.false_eq_true, if_false, hopened, hparse, Option.some_or]
  · intro hneeds
    have hsealed : isEncrypted payload = true := by simpa [needsBindkey, hdata] using hneeds
    rw [(Coordinator.sameCheck_handleAdvertisement hne).bindkeyVerified,
      Coordinator.bindkeyVerified_plaintext, hopens hsealed, Option.some_or]

/-- A key of sixteen bytes that opened the packet works from where it is stored. -/
theorem works_hexText {key : Bytes} (hlength : key.length = 16)
    (h : declarationFrom aead table info (some key) = .ok (some d)) :
    Works aead table info (some (hexText key)) d := by
  have hne : key ≠ [] := by
    rintro rfl
    cases hlength
  refine works_of_declarationFrom (storedBindkey_hexText hne) rfl ?_ h
  rintro _ ⟨⟩
  exact hlength

/-! ## Every flow -/

namespace ConfigFlow

variable {Heard : ServiceInfo → Prop} {flow : ConfigFlow} {around : Surroundings}

variable (aead table describe Heard) in
/-- What has to hold of a flow that shows the form of a step. -/
def Ready (flow : ConfigFlow) : FlowStep → Prop
  | .user => flow.source ≠ .reauth ∧ flow.bindkey = none ∧ ∀ info ∈ flow.candidates, Heard info
  | .getEncryptionKey =>
      ∃ info, flow.discovery = some info ∧ Heard info ∧ needsBindkey info = true ∧
        (flow.source = .reauth → flow.entry = info.address) ∧
        (flow.source ≠ .reauth → flow.uniqueId = some info.address)
  | .confirm =>
      ∃ info d, flow.discovery = some info ∧ Heard info ∧ flow.uniqueId = some info.address ∧
        d.offered describe ≠ [] ∧ (flow.bindkey = none → needsBindkey info = false) ∧
        (∀ key ∈ flow.bindkey, key.length = 16) ∧
        declarationFrom aead table info flow.bindkey = .ok (some d)
  | .reconfigure => flow.source = .reconfigure

variable (aead table describe Heard) in
structure FlowInv (flow : ConfigFlow) : Prop where
  ready : ∀ step, flow.shown = some step → Ready aead table describe Heard flow step
  vouched : ∀ result ∈ flow.results, Vouched aead table describe Heard flow.source result

/-- What no step touches. -/
def unmoved (flow : ConfigFlow) : FlowSource × List FlowResult × Option FlowStep :=
  (flow.source, flow.results, flow.shown)

variable (aead table describe Heard) in
/-- What a step may come to. -/
structure Sound (flow : ConfigFlow) (step : ConfigFlow × FlowResult) : Prop where
  unmoved : step.1.unmoved = flow.unmoved
  form : ∀ next error, step.2 = .form next error → Ready aead table describe Heard step.1 next
  raised : step.2 = .raised → ∀ on, flow.shown = some on → Ready aead table describe Heard step.1 on
  vouched : Vouched aead table describe Heard flow.source step.2

theorem FlowInv.conclude (h : FlowInv aead table describe Heard flow)
    {step : ConfigFlow × FlowResult} (hsound : Sound aead table describe Heard flow step) :
    FlowInv aead table describe Heard (conclude step) := by
  obtain ⟨flow', result⟩ := step
  obtain ⟨hsource, hrest⟩ := Prod.mk.inj hsound.unmoved
  obtain ⟨hresults, hshown⟩ := Prod.mk.inj hrest
  have hvouched : ∀ r ∈ flow'.results ++ [result],
      Vouched aead table describe Heard flow'.source r := by
    rw [Runs.forall_mem_concat, hsource, hresults]
    exact ⟨h.vouched, hsound.vouched⟩
  cases result with
  | form next error =>
      refine ⟨?_, hvouched⟩
      rintro on ⟨⟩
      have hready := hsound.form next error rfl
      cases next <;> exact hready
  | raised =>
      refine ⟨fun on hon => ?_, hvouched⟩
      have hready := hsound.raised rfl on (hshown ▸ hon)
      cases on <;> exact hready
  | abort reason =>
      refine ⟨?_, hvouched⟩
      rintro _ ⟨⟩
  | createEntry uniqueId title stored =>
      refine ⟨?_, hvouched⟩
      rintro _ ⟨⟩
  | updateEntry uniqueId stored =>
      refine ⟨?_, hvouched⟩
      rintro _ ⟨⟩

/-! ### Steps -/

section Sound

variable {flow' : ConfigFlow} (hunmoved : flow'.unmoved = flow.unmoved)

include hunmoved

theorem sound_abort (reason : String) :
    Sound aead table describe Heard flow (flow', .abort reason) where
  unmoved := hunmoved
  form := by rintro _ _ ⟨⟩
  raised := by rintro ⟨⟩
  vouched := trivial

theorem sound_form {next : FlowStep} (error : Option String)
    (h : Ready aead table describe Heard flow' next) :
    Sound aead table describe Heard flow (flow', .form next error) where
  unmoved := hunmoved
  form := by
    rintro _ _ ⟨⟩
    exact h
  raised := by rintro ⟨⟩
  vouched := trivial

theorem sound_raised (h : ∀ on, flow.shown = some on → Ready aead table describe Heard flow' on) :
    Sound aead table describe Heard flow (flow', .raised) where
  unmoved := hunmoved
  form := by rintro _ _ ⟨⟩
  raised := fun _ => h
  vouched := trivial

end Sound

theorem sound_updateEntry {uniqueId : List Char} {stored : Option (List Char)}
    (hunmoved : flow'.unmoved = flow.unmoved)
    (h : Vouched aead table describe Heard flow.source (.updateEntry uniqueId stored)) :
    Sound aead table describe Heard flow (flow', .updateEntry uniqueId stored) where
  unmoved := hunmoved
  form := by rintro _ _ ⟨⟩
  raised := by rintro ⟨⟩
  vouched := h

theorem sound_lookAt {info : ServiceInfo} (nothing : String) (hheard : Heard info)
    (hsource : flow.source ≠ .reauth) (hid : flow.uniqueId = some info.address)
    (hkey : flow.bindkey = none)
    (hshown : ∀ on, flow.shown = some on → on = .user ∧ ∀ info ∈ flow.candidates, Heard info) :
    Sound aead table describe Heard flow (flow.lookAt aead table describe info nothing) := by
  unfold lookAt
  by_cases hneeds : needsBindkey info = true
  · simp only [if_pos hneeds]
    refine sound_form ?_ none ?_
    · rfl
    · exact ⟨info, rfl, hheard, hneeds, fun h => absurd h hsource, fun _ => hid⟩
  simp only [if_neg hneeds]
  -- in clear: nothing is said, nothing can be written, or there is something to confirm
  cases hdeclaration : declarationFrom aead table info none with
  | error e =>
      refine sound_raised ?_ fun on hon => ?_
      · rfl
      · obtain ⟨rfl, hcandidates⟩ := hshown on hon
        exact ⟨hsource, hkey, hcandidates⟩
  | ok found =>
      cases found with
      | none =>
          refine sound_abort ?_ _
          rfl
      | some declaration =>
          by_cases hoffered : declaration.offered describe = []
          · simp only [if_pos hoffered]
            refine sound_abort ?_ _
            rfl
          · simp only [if_neg hoffered]
            refine sound_form ?_ none ?_
            · rfl
            refine ⟨info, declaration, rfl, hheard, hid, hoffered,
              fun _ => Bool.eq_false_iff.mpr hneeds, ?_, ?_⟩
            · show ∀ key ∈ flow.bindkey, _
              rw [hkey]
              rintro _ ⟨⟩
            · show declarationFrom aead table info flow.bindkey = _
              rw [hkey]
              exact hdeclaration

theorem sound_stepBluetooth {info : ServiceInfo} (hheard : Heard info) (entry : List Char) :
    Sound aead table describe Heard (start .bluetooth entry)
      ((start .bluetooth entry).stepBluetooth aead table describe around info) := by
  unfold stepBluetooth
  split
  · refine sound_abort ?_ _
    rfl
  dsimp only
  split
  · refine sound_abort ?_ _
    rfl
  · have hlook : Sound aead table describe Heard
        { start .bluetooth entry with uniqueId := some info.address } _ :=
      sound_lookAt "nothing_writable" hheard (by simp [start]) rfl rfl (by rintro _ ⟨⟩)
    exact { hlook with }

theorem sound_stepGetEncryptionKey (h : FlowInv aead table describe Heard flow)
    (hshown : flow.shown = some .getEncryptionKey) (text : List Char) :
    Sound aead table describe Heard flow
      (flow.stepGetEncryptionKey aead table describe text) := by
  have hready := h.ready _ hshown
  obtain ⟨info, hdiscovery, hheard, hneeds, hentry, hid⟩ := hready
  unfold stepGetEncryptionKey
  simp only [hdiscovery]
  cases hkey : parseBindkey text with
  | none => exact sound_form rfl _ (h.ready _ hshown)
  | some key =>
      have hlength := length_parseBindkey hkey
      dsimp only
      cases hdeclaration : declarationFrom aead table info (some key) with
      | error e => exact sound_raised rfl h.ready
      | ok found =>
          cases found with
          | none => exact sound_form rfl _ (h.ready _ hshown)
          | some d =>
              dsimp only
              by_cases hoffered : d.offered describe = []
              · rw [if_pos hoffered]
                exact sound_abort rfl _
              rw [if_neg hoffered]
              by_cases hreauth : flow.source = .reauth
              · rw [if_pos hreauth]
                refine sound_updateEntry ?_ ⟨info, hheard, hentry hreauth, ?_, fun _ => hneeds,
                  fun _ => ⟨d, works_hexText hlength hdeclaration⟩⟩
                · rfl
                · rintro ⟨⟩
              · rw [if_neg hreauth]
                refine sound_form ?_ none ?_
                · rfl
                refine ⟨info, d, rfl, hheard, hid hreauth, hoffered, ?_, ?_, hdeclaration⟩
                · rintro ⟨⟩
                · rintro _ ⟨⟩
                  exact hlength

theorem sound_stepConfirm (h : FlowInv aead table describe Heard flow)
    (hshown : flow.shown = some .confirm) :
    Sound aead table describe Heard flow flow.stepConfirm := by
  obtain ⟨info, d, hdiscovery, hheard, hid, hoffered, hclear, hlength, hdeclaration⟩ :=
    h.ready _ hshown
  unfold stepConfirm
  rw [hdiscovery]
  cases hkept : flow.declaration with
  | none => exact sound_raised rfl h.ready
  | some kept =>
      refine ⟨rfl, by rintro _ _ ⟨⟩, by rintro ⟨⟩, ?_⟩
      refine ⟨info, d, hheard, hid, rfl, hoffered, ?_, ?_⟩
      · intro hnone
        exact hclear (Option.map_eq_none_iff.mp hnone)
      · cases hkey : flow.bindkey with
        | none =>
            rw [hkey] at hdeclaration
            exact works_of_declarationFrom rfl rfl (by rintro _ ⟨⟩) hdeclaration
        | some key =>
            rw [hkey] at hdeclaration
            exact works_hexText (hlength key hkey) hdeclaration

theorem address_of_find {infos : List ServiceInfo} {info : ServiceInfo} {address : List Char}
    (h : infos.find? (·.address = address) = some info) :
    info ∈ infos ∧ address = info.address := by
  have haddress := List.find?_some h
  exact ⟨List.mem_of_find?_eq_some h, (by simpa using haddress : info.address = address).symm⟩

theorem sound_stepReauth (haround : ∀ info ∈ around.discovered, Heard info)
    {address : List Char} {sent : Option ServiceInfo}
    (hsent : ∀ info ∈ sent, Heard info ∧ info.address = address) :
    Sound aead table describe Heard (start .reauth address)
      ((start .reauth address).stepReauth around sent) := by
  unfold stepReauth
  cases hfound : sent.or (around.discovered.find? (·.address = (start .reauth address).entry)) with
  | none =>
      refine sound_abort ?_ _
      rfl
  | some info =>
      have hinfo : Heard info ∧ address = info.address := by
        cases sent with
        | some sent =>
            obtain rfl : sent = info := Option.some.inj hfound
            obtain ⟨hheard, haddress⟩ := hsent sent rfl
            exact ⟨hheard, haddress.symm⟩
        | none =>
            obtain ⟨hmem, haddress⟩ := address_of_find hfound
            exact ⟨haround info hmem, haddress⟩
      dsimp only
      cases hneeds : needsBindkey info with
      | false =>
          refine sound_abort ?_ _
          rfl
      | true =>
          refine sound_form ?_ none ?_
          · rfl
          · exact ⟨info, rfl, hinfo.1, hneeds, fun _ => hinfo.2, fun h => absurd rfl h⟩

theorem sound_stepReconfigure (hsource : flow.source = .reconfigure)
    (hready : ∀ on, flow.shown = some on → Ready aead table describe Heard flow on)
    (haround : ∀ info ∈ around.discovered, Heard info) (input : Option (List Char)) :
    Sound aead table describe Heard flow (flow.stepReconfigure aead table around input) := by
  unfold stepReconfigure
  cases hfound : around.discovered.find? (·.address = flow.entry) with
  | none => exact sound_abort rfl _
  | some info =>
      obtain ⟨hmem, haddress⟩ := address_of_find hfound
      have hnot : flow.source = .reauth → needsBindkey info = true := by
        rw [hsource]
        rintro ⟨⟩
      cases input with
      | none => exact sound_form rfl _ hsource
      | some text =>
          dsimp only
          split
          · split
            · exact sound_form rfl _ hsource
            · rename_i hclear
              refine sound_updateEntry rfl ⟨info, haround info hmem, haddress,
                fun _ => Bool.eq_false_iff.mpr hclear, hnot, ?_⟩
              rintro ⟨⟩
          · cases hkey : parseBindkey (unseparated text) with
            | none => exact sound_form rfl _ hsource
            | some key =>
                dsimp only
                cases hdeclaration : declarationFrom aead table info (some key) with
                | error e => exact sound_raised rfl hready
                | ok found =>
                    cases found with
                    | none => exact sound_form rfl _ hsource
                    | some d =>
                        refine sound_updateEntry rfl ⟨info, haround info hmem, haddress, ?_, hnot,
                          fun _ => ⟨d, works_hexText (length_parseBindkey hkey) hdeclaration⟩⟩
                        rintro ⟨⟩

theorem mem_candidatesAmong {configured : List (List Char)} {infos found : List ServiceInfo}
    (h : candidatesAmong aead table describe configured infos = .ok found) : found ⊆ infos := by
  induction infos generalizing found with
  | nil =>
      obtain rfl : [] = found := Except.ok.inj h
      exact List.Subset.refl _
  | cons info rest ih =>
      have hkept : ∀ {found'}, (candidatesAmong aead table describe configured rest).map
          (info :: ·) = .ok found' → found' ⊆ info :: rest := by
        intro found' hfound'
        cases hrest : candidatesAmong aead table describe configured rest with
        | error e =>
            rw [hrest] at hfound'
            cases hfound'
        | ok later =>
            rw [hrest] at hfound'
            obtain rfl := Except.ok.inj hfound'
            exact List.cons_subset_cons info (ih hrest)
      unfold candidatesAmong at h
      split at h
      · exact List.subset_cons_of_subset info (ih h)
      split at h
      · exact hkept h
      split at h
      · cases h
      · exact List.subset_cons_of_subset info (ih h)
      · split at h
        · exact List.subset_cons_of_subset info (ih h)
        · exact hkept h

theorem sound_stepUser (haround : ∀ info ∈ around.discovered, Heard info) (entry : List Char) :
    Sound aead table describe Heard (start .user entry)
      ((start .user entry).stepUser aead table describe around) := by
  unfold stepUser
  split
  · refine sound_raised ?_ ?_
    · rfl
    · rintro _ ⟨⟩
  · refine sound_abort ?_ _
    rfl
  · rename_i candidates _ hfound
    refine sound_form ?_ none ?_
    · rfl
    · refine ⟨by simp [start], rfl, fun info hinfo => ?_⟩
      exact haround info (mem_candidatesAmong hfound hinfo)

theorem sound_stepPicked (h : FlowInv aead table describe Heard flow)
    (hshown : flow.shown = some .user) (address : List Char) :
    Sound aead table describe Heard flow
      (flow.stepPicked aead table describe around address) := by
  obtain ⟨hsource, hkey, hcandidates⟩ := h.ready _ hshown
  unfold stepPicked
  dsimp only
  split
  · refine sound_abort ?_ _
    rfl
  · split
    · refine sound_raised ?_ fun on hon => ?_
      · rfl
      · obtain rfl : on = .user := Option.some.inj (hon.symm.trans hshown)
        exact ⟨hsource, hkey, hcandidates⟩
    · rename_i info hfound
      obtain ⟨hmem, haddress⟩ := address_of_find hfound
      have hlook : Sound aead table describe Heard { flow with uniqueId := some address } _ :=
        sound_lookAt "not_supported" (hcandidates info (List.mem_reverse.mp hmem)) hsource
          (congrArg some haddress) hkey fun on hon =>
            ⟨Option.some.inj (hon.symm.trans hshown), hcandidates⟩
      exact { hlook with }

/-! ### Runs -/

variable (Heard) in
/-- What a flow is begun with has been heard, and a request for the key of a device comes with an
advertisement of that device. -/
def Given : Start → Prop
  | .bluetooth info => Heard info
  | .reauth address sent => ∀ info ∈ sent, Heard info ∧ info.address = address
  | .user | .reconfigure _ => True

theorem flowInv_start (source : FlowSource) (entry : List Char) :
    FlowInv aead table describe Heard (start source entry) where
  ready := by rintro _ ⟨⟩
  vouched := fun _ hr => by cases hr

theorem flowInv_first (haround : ∀ info ∈ around.discovered, Heard info) {begin : Start}
    (hgiven : Given Heard begin) :
    FlowInv aead table describe Heard (first aead table describe around begin) := by
  cases begin with
  | bluetooth info => exact (flowInv_start _ _).conclude (sound_stepBluetooth hgiven [])
  | user => exact (flowInv_start _ _).conclude (sound_stepUser haround [])
  | reauth address sent => exact (flowInv_start _ _).conclude (sound_stepReauth haround hgiven)
  | reconfigure address =>
      refine (flowInv_start _ _).conclude (sound_stepReconfigure rfl ?_ haround none)
      rintro _ ⟨⟩

theorem FlowInv.answer (h : FlowInv aead table describe Heard flow)
    {act : Surroundings × List Char} (hact : ∀ info ∈ act.1.discovered, Heard info) :
    FlowInv aead table describe Heard (flow.answer aead table describe act) := by
  unfold ConfigFlow.answer
  cases hshown : flow.shown with
  | none => exact h
  | some on =>
      cases on with
      | user => exact h.conclude (sound_stepPicked h hshown act.2)
      | getEncryptionKey => exact h.conclude (sound_stepGetEncryptionKey h hshown act.2)
      | confirm => exact h.conclude (sound_stepConfirm h hshown)
      | reconfigure =>
          exact h.conclude (sound_stepReconfigure (h.ready _ hshown) h.ready hact (some act.2))

/-- However a flow begins and whatever is typed into its forms, while devices come and go around
it: the coordinator of an entry that it filled opens an advertisement of the entry's device.  Of a
sealed one this tries the key; on one in clear there is nothing to try it on, and
`reconfigure_in_clear` says that any key goes in. -/
theorem keys_are_tried (aead : Aead) (table : ObjectTable) (describe : UInt8 → Option String)
    (Heard : ServiceInfo → Prop) (around : Surroundings) (begin : Start)
    (acts : List (Surroundings × List Char)) (haround : ∀ info ∈ around.discovered, Heard info)
    (hacts : ∀ act ∈ acts, ∀ info ∈ act.1.discovered, Heard info) (hgiven : Given Heard begin) :
    let flow := Runs.run (answer aead table describe) (first aead table describe around begin) acts
    ∀ result ∈ flow.results, Vouched aead table describe Heard flow.source result := by
  have hrun : FlowInv aead table describe Heard
      (Runs.run (answer aead table describe) (first aead table describe around begin) acts) :=
    Runs.run_invariant (fun _ _ h hact => h.answer hact) (flowInv_first haround hgiven)
      (Runs.Along.of_forall hacts)
  exact hrun.vouched

/-- A light that is switched, under a key that nobody has told. -/
def sampleInfo : ServiceInfo where
  address := "C1:11:22:33:44:55".toList
  name := "Puck.js 4455"
  payload := some ([0x41, 0xFF, 0x01, 0x0F] ++ LittleEndian.toLE 4 300 ++ [0, 0, 0, 0])

def sampleAround : Surroundings := ⟨[sampleInfo], [], false⟩

set_option maxRecDepth 4000 in
/-- A key that is too short, and then one with dashes and a blank after it. -/
theorem keys_are_tried_sample :
    let flow := Runs.run (answer (Aead.tagging [] []) (fun _ => none) fun _ => some "binary")
      (first (Aead.tagging [] []) (fun _ => none) (fun _ => some "binary") sampleAround .user)
      [(sampleAround, sampleInfo.address), (sampleAround, "2b2b".toList),
        (sampleAround, "2B2B2B2B-2B2B2B2B-2B2B2B2B-2B2B2B2B ".toList), (sampleAround, [])]
    flow.results.map (fun result => result matches .createEntry ..) =
        [false, false, false, false, true] ∧
      ∀ result ∈ flow.results, Vouched (Aead.tagging [] []) (fun _ => none)
        (fun _ => some "binary") (· = sampleInfo) flow.source result := by
  refine ⟨by decide +kernel,
    keys_are_tried _ _ _ (· = sampleInfo) sampleAround .user _ ?_ ?_ trivial⟩
  · intro info hinfo
    exact List.mem_singleton.mp hinfo
  · intro act hact info hinfo
    simp only [List.mem_cons, List.not_mem_nil, or_false] at hact
    rcases hact with rfl | rfl | rfl | rfl <;> exact List.mem_singleton.mp hinfo

/-- There is no trying a key on a device that advertises in clear: whatever key is typed when it
is reconfigured goes into the entry. -/
theorem reconfigure_in_clear {info : ServiceInfo} {text : List Char} {key : Bytes} {d : Declaration}
    (hfound : around.discovered.find? (·.address = flow.entry) = some info)
    (hclear : needsBindkey info = false)
    (hdeclaration : declarationFrom aead table info none = .ok (some d))
    (hkey : parseBindkey (unseparated text) = some key) :
    (flow.stepReconfigure aead table around (some text)).2 =
      .updateEntry flow.entry (some (hexText key)) := by
  have hsame : declarationFrom aead table info (some key) = .ok (some d) := by
    rw [← hdeclaration]
    unfold declarationFrom
    cases hdata : serviceData info with
    | none => rfl
    | some payload =>
        have hplain : isEncrypted payload = false := by simpa [needsBindkey, hdata] using hclear
        simp [objectsFrom, hplain]
  have htyped : unseparated text ≠ [] := by
    intro hnone
    have hempty : parseBindkey [] = none := by decide
    rw [hnone, hempty] at hkey
    cases hkey
  simp only [stepReconfigure, hfound, if_neg htyped, hkey, hsame]

end ConfigFlow

end BTHomeWritable.Receiver
