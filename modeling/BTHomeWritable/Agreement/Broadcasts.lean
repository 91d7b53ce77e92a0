import BTHomeWritable.Agreement.Packet
import BTHomeWritable.Firmware.Packets
import BTHomeWritable.Receiver.Absorbing
import BTHomeWritable.Receiver.CacheLayout
import BTHomeWritable.Receiver.Duplicates
import BTHomeWritable.Receiver.Sourcing

/-!
# What a receiver gathers from a device

The device at one end, with whatever throws, drifts and is refused there; the
coordinator at the other, in whatever state it is.  A packet that passes the
replay check is opened, taken apart into the objects of the device's entries,
and leaves the receiver with the numbers and objects of the device's writable
entries; only the fallback tells it nothing.

`Gathers` is what one packet is to a coordinator.  The proof puts together three
things: that what the radio is handed is `Genuine`, from the module on packets; that
such a frame opens (`opened_of_framed`); and that what is in it decodes
(`decodes_build`).  `gathers_of_genuine` is one packet and `broadcasts_understood`
every packet of every run.
-/

namespace BTHomeWritable.Agreement

open Device Firmware Receiver

variable {env : Env} {table : ObjectTable} {s : Coordinator} {payload objects : Bytes}

/-- The device's address as the receiver has it. -/
def addressOf (env : Env) : List Char := Hex.joined .upper ':' (Device.macBytes env.address)

/-- What an advertisement of the device is to the coordinator `s`. -/
inductive Gathers (env : Env) (table : ObjectTable) (s : Coordinator) (h : Handed) : Prop
  /-- A packet of the plan, which has had these writable entries and sensors all along. -/
  | planned (p : Plan) (info : UInt8) (objects : Bytes) (halike : Alike p h.st.plan)
      (hrev : p.rev.isSome = p.writable.any (·.readable))
      (hopened : (s.plaintext env.ccm (addressOf env) h.sd).2 = .ok (some objects))
      (hdecodes : Decodes table p (info :: objects))
      (hdeclaration : (s.handleAdvertisement env.ccm table (addressOf env) h.sd).declaration =
        if p.writable = [] then s.declaration
        else some ⟨entriesFrom 1 (h.st.plan.writable.map (·.spec.id)), p.rev.map UInt8.toNat⟩)
      (hdeclared : p.writable ≠ [] → ∀ k : ℕ,
        (s.handleAdvertisement env.ccm table (addressOf env) h.sd).declared (k + 1) =
          (h.st.plan.writable[k]?).map (·.spec.id))
  | fallback (id : UInt8)
      (hopened : (s.plaintext env.ccm (addressOf env) h.sd).2 = .ok (some [PKT_ID, id]))
      (hdeclaration : (s.handleAdvertisement env.ccm table (addressOf env) h.sd).declaration =
        s.declaration)

/-! ## The coordinator -/

/-- Entries are numbered as they are declared. -/
theorem declared_of_declaration {ids : Bytes} {revision : Option ℕ}
    (h : s.declaration = some ⟨entriesFrom 1 ids, revision⟩) (k : ℕ) :
    s.declared (k + 1) = ids[k]? := by
  have hlength : (entriesFrom 1 ids).length = ids.length := by
    simpa using congrArg List.length (Cache.layout_entriesFrom 1 ids)
  unfold Coordinator.declared Coordinator.entry
  simp only [h, hlength]
  by_cases hk : k < ids.length
  · rw [if_pos (by omega), show ((k : ℤ) + 1 - 1).toNat = k by omega, Cache.getElem?_entriesFrom,
      Option.map_map, List.getElem?_eq_getElem hk]
    rfl
  · rw [if_neg (by omega), List.getElem?_eq_none (by omega)]
    rfl

/-- What opens is parsed, and a declaration takes the place of the one before. -/
theorem declaration_of_opened {aead : Aead} {address : List Char} (hne : payload ≠ [])
    (hopened : (s.plaintext aead address payload).2 = .ok (some objects)) :
    (s.handleAdvertisement aead table address payload).declaration =
      match parseDeclaration table objects with
      | .ok (some declaration) => some declaration
      | _ => s.declaration := by
  have hempty : payload.isEmpty = false := by simpa using hne
  rw [Coordinator.declaration_handleAdvertisement]
  simp only [Coordinator.hears, hempty, Bool.false_eq_true, if_false, hopened]
  cases parseDeclaration table objects with
  | error e => rfl
  | ok parsed => cases parsed <;> rfl

/-! ## Opening -/

/-- A packet of the device opens, in clear and under its key. -/
theorem opened_of_framed (hcorrect : env.ccm.Correct 4) {key : Option Bytes} {mac frame : Bytes}
    (hown : key.isSome = true → mac = Device.macBytes env.address) (hobjects : objects ≠ [])
    (hframed : Framed env key mac
      ((if key.isSome then DEV_INFO_ENC else DEV_INFO) :: objects) frame)
    (hbindkey : s.bindkey = key) (hincreased : s.counterIncreased frame = true) :
    frame ≠ [] ∧ (s.plaintext env.ccm (addressOf env) frame).2 = .ok (some objects) := by
  cases key with
  | none =>
      obtain rfl : frame = DEV_INFO :: objects := hframed
      have hclear : isEncrypted (DEV_INFO :: objects) = false := by
        simp only [isEncrypted, decide_eq_false_iff_not, not_not]
        decide
      have hmac : macIncluded (DEV_INFO :: objects) = false := by
        simp only [macIncluded, decide_eq_false_iff_not, not_not]
        decide
      refine ⟨by simp, ?_⟩
      simp [Coordinator.plaintext_clear hclear, objectsAt, hmac]
  | some key =>
      obtain ⟨counter, rfl⟩ := hframed
      obtain rfl := hown rfl
      -- only the low four bytes of the counter are in the frame and in the nonce
      have hwrapped : sealedWith env.ccm key (Device.macBytes env.address) objects DEV_INFO_ENC
          counter = sealedWith env.ccm key (Device.macBytes env.address) objects DEV_INFO_ENC
            (counter % 4294967296) := by
        simp only [sealedWith, nonceFor, counterBytes_mod]
      have hlt : counter % 4294967296 < 4294967296 := Nat.mod_lt _ (by norm_num)
      have hopens : decryptAdvertising env.ccm
          (DEV_INFO_ENC :: sealedWith env.ccm key (Device.macBytes env.address) objects
            DEV_INFO_ENC counter) key (addressOf env) = .ok (some objects) := by
        rw [decryptAdvertising_cons, hwrapped]
        exact openUnder_sealedWith hcorrect hobjects hlt
      refine ⟨by simp [sealedAdvertising], ?_⟩
      unfold sealedAdvertising at hincreased ⊢
      simp only [Option.isSome_some, if_true, List.drop_succ_cons, List.drop_zero]
        at hincreased ⊢
      rw [Coordinator.plaintext_sealed hbindkey (isEncrypted_advertising _)]
      simp only [hincreased, Bool.not_true, Bool.false_eq_true, if_false, hopens]

/-! ## Every packet of a run -/

/-- There is at least the packet id in a packet. -/
theorem Decodes.objects_ne_nil {p : Plan} {info : UInt8} (h : Decodes table p (info :: objects)) :
    objects ≠ [] := by
  rintro rfl
  obtain ⟨found, declared, hsplit, hsorted⟩ := h.objects
  have hnone : splitObjects table [] = .ok ([], none) := by
    unfold splitObjects
    rw [splitObjectsFrom]
    rfl
  obtain ⟨rfl, -⟩ := Prod.mk.inj (Except.ok.inj (hnone.symm.trans hsplit))
  exact absurd hsorted.perm.length_eq (by simp [reported])

theorem gathers_of_genuine (hcorrect : env.ccm.Correct 4)
    (hpkt : OneByte table PACKET_ID_OBJECT_ID) (hrev : OneByte table SETTINGS_REVISION_OBJECT_ID)
    {h : Handed} (hgenuine : Genuine (SensorObject table) env h) (hbindkey : s.bindkey = h.st.key)
    (hincreased : s.counterIncreased h.sd = true) : Gathers env table s h := by
  obtain ⟨sd, hsays, hframed⟩ := hgenuine.spoken
  cases hsays with
  | planned p hplan halike hsd =>
      obtain ⟨ids, limit, hinv⟩ := hplan.inv
      have hdecodes : Decodes table p sd := hsd ▸ decodes_build hpkt hrev hinv p.info
      rw [hsd, plannedBytes, hplan.info] at hframed
      rw [hsd, plannedBytes] at hdecodes
      obtain ⟨hne, hopened⟩ := opened_of_framed hcorrect hgenuine.own hdecodes.objects_ne_nil
        hframed hbindkey hincreased
      have hdeclaration : (s.handleAdvertisement env.ccm table (addressOf env) h.sd).declaration =
          if p.writable = [] then s.declaration
          else some ⟨entriesFrom 1 (h.st.plan.writable.map (·.spec.id)),
            p.rev.map UInt8.toNat⟩ := by
        have hparsed := hdecodes.declaration
        rw [List.drop_one, List.tail_cons] at hparsed
        rw [declaration_of_opened hne hopened, hparsed,
          show h.st.plan.writable = p.writable from halike.writable]
        by_cases hnone : p.writable = []
        · simp only [if_pos hnone]
        · simp only [if_neg hnone]
      refine .planned p p.info _ halike hinv.rev hopened hdecodes hdeclaration ?_
      intro hsome k
      rw [if_neg hsome] at hdeclaration
      rw [declared_of_declaration hdeclaration, List.getElem?_map]
  | fallback id hsd =>
      rw [hsd, show (voice h.st).plan.info = _ from hgenuine.plan.info] at hframed
      obtain ⟨hne, hopened⟩ := opened_of_framed hcorrect hgenuine.own (by simp) hframed hbindkey
        hincreased
      refine .fallback id hopened ?_
      have hfits : ∀ o ∈ [(⟨PKT_ID, [id]⟩ : Obj)], Fits table o := by
        intro o ho
        obtain rfl := List.mem_singleton.mp ho
        exact fits_oneByte hpkt (by decide)
      have hparsed : parseDeclaration table [PKT_ID, id] = .ok none :=
        parseDeclaration_encode (by simp) hfits
      rw [declaration_of_opened hne hopened, hparsed]

/-- In every run of a device from power-on, whatever throws and however its readings move, each
packet handed to the radio is understood by every coordinator that has the device's key and does
not take the packet for a replay. -/
theorem broadcasts_understood (env : Env) (table : ObjectTable) (file : Option MarksFile)
    (events : List BoardEvent) (hcorrect : env.ccm.Correct 4)
    (hpkt : OneByte table PACKET_ID_OBJECT_ID) (hrev : OneByte table SETTINGS_REVISION_OBJECT_ID)
    (hreads : ∀ opts, .setup opts ∈ events → Reads (SensorObject table) env opts.advertise) :
    ∀ h ∈ (Runs.run (Board.step env) (Board.powerOn file) events).handed, ∀ s : Coordinator,
      s.bindkey = h.st.key → s.counterIncreased h.sd = true → Gathers env table s h :=
  fun h hh _ => gathers_of_genuine hcorrect hpkt hrev (genuine_run env file events hreads h hh)

/-- A thermometer in place of the battery. -/
def thermometerEnv : Env :=
  { sampleEnv with
    read := fun _ _ => .ok ⟨0x02, [90, 0]⟩
    throws := fun n call =>
      match n, call with
      | 15, .setAdvertising _ _ => some ⟨none, "INVALID ADDR"⟩
      | _, _ => none }

set_option maxRecDepth 4000 in
/-- With a key, an `update()` whose packet the radio refuses after that of the `setup()`. -/
theorem broadcasts_understood_sample :
    let handed := (Runs.run (Board.step thermometerEnv) (Board.powerOn none)
      [.setup sampleKeyed, .on .update]).handed
    let s := Coordinator.start (some (List.replicate 16 0x2B)) none 0
    handed.map (·.accepted) = [true, false, true] ∧
      ∀ h ∈ handed, Gathers thermometerEnv sampleTable s h := by
  intro handed s
  have hkeys : handed.map (·.st.key) = List.replicate 3 (some (List.replicate 16 0x2B)) := by
    decide
  refine ⟨by decide, fun h hh => ?_⟩
  refine broadcasts_understood thermometerEnv sampleTable none _
    (Aead.tagging_ideal [] []).toCorrect ⟨"unsigned_integer", rfl, by decide, by decide⟩
    ⟨"unsigned_integer", rfl, by decide, by decide⟩ ?_ h hh s ?_ ?_
  · rintro opts - n i o - ⟨⟩
    exact ⟨by decide, by decide, by decide, "signed_integer", 2, rfl, rfl⟩
  · have hmem : h.st.key ∈ handed.map (·.st.key) := List.mem_map_of_mem hh
    rw [hkeys] at hmem
    exact (List.eq_of_mem_replicate hmem).symm
  · exact Coordinator.counterIncreased_unverified (by simp [s, Coordinator.start])

end BTHomeWritable.Agreement
