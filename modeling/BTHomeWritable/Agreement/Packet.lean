import BTHomeWritable.Agreement.Seal
import BTHomeWritable.Device.PlanInv
import BTHomeWritable.Receiver.Objects

/-!
# A packet, from the plan to the parser

What the device plans and renders, the receiver's walk takes apart into the same
objects, and its declaration parser into the same entries.  The encoder is held
to one object of one id for each sensor, as wide as the receiver's table says.

* The objects of a plan are those of its sensors with the packet id and the
  revision; that they are in the order of their ids, with those of one id in entry
  order, is the stable sort of `planPacket` (`isStableSort_objs`).
* `Decodes` is what the receiver makes of service data built from a plan, and
  `decodes_build` that it does, by the round trips of the receiver's walk.
* `PacketAgreement` adds what a rendering moves, the room that is kept, sealed or in
  clear, and when it is refused; `packetAgreement_render` proves it from `PlanInv`.

`advertised_packet_decodes` starts at the entry list: it is refused over one of its
entries, over its declaration or over its size, or every rendering agrees.
-/

namespace BTHomeWritable.Agreement

open Device Receiver StableSort

variable {table : ObjectTable} {entries : List Entry} {ids : ℕ → UInt8}
  {enc : Entry → Probe → Except JsError Obj} {encrypted : Bool} {limit : ℤ} {p : Plan}

/-- The table has `id` down as an object of one byte. -/
def OneByte (table : ObjectTable) (id : UInt8) : Prop :=
  ∃ dataFormat, table id = some (dataFormat, 1) ∧ dataFormat ∉ LENGTH_PREFIXED_FORMATS ∧
    dataFormat ≠ COMMAND_FORMAT

/-- An object a sensor may be encoded as. -/
def SensorObject (table : ObjectTable) (o : Obj) : Prop :=
  o.id ≠ PACKET_ID_OBJECT_ID ∧ o.id ≠ SETTINGS_REVISION_OBJECT_ID ∧ Fits table o

/-- The sensors of a plan in the order of the entries. -/
def inEntryOrder (p : Plan) : List Sensor := StableSort.sort Sensor.entryIndex p.ordered

/-- What a packet is about: its id, every sensor's reading, and the revision if there is one. -/
def reported (p : Plan) : List Obj :=
  ⟨PKT_ID, [p.pkt]⟩ :: ((inEntryOrder p).map Sensor.obj ++
    p.rev.toList.map fun byte => ⟨REV_ID, [byte]⟩)

theorem fits_oneByte {id b : UInt8} (h : OneByte table id) (hid : id ≠ DECLARATION_OBJECT_ID) :
    Fits table ⟨id, [b]⟩ := by
  obtain ⟨dataFormat, htable, hprefixed, hcommand⟩ := h
  exact ⟨hid, dataFormat, 1, htable, by rw [if_neg hprefixed, if_neg hcommand]; rfl⟩

/-! ## The objects of a plan -/

/-- The slots name the packet id, the sensors as the plan has them, and the revision. -/
theorem map_object_slots (h : p.rev.isSome = p.writable.any (·.readable)) :
    (slots p.ordered.length (p.writable.any (·.readable))).map p.object =
      ⟨PKT_ID, [p.pkt]⟩ :: (p.ordered.map Sensor.obj ++
        p.rev.toList.map fun byte => ⟨REV_ID, [byte]⟩) := by
  have hsensors : (List.range p.ordered.length).map (p.object ∘ Slot.sensor) =
      p.ordered.map Sensor.obj := by
    apply List.ext_getElem
    · simp
    · intro i hi hi'
      simp only [List.length_map] at hi'
      simp [Plan.object, List.getD, hi']
  rw [← h]
  unfold slots
  rw [List.map_cons, List.map_append, List.map_map, hsensors]
  cases hrev : p.rev with
  | none => rfl
  | some byte => simp [Plan.object, hrev]

/-- Within an object id the plan's order is the order of the entries. -/
theorem filter_inEntryOrder (hplaced : (p.ordered.map Sensor.place).Pairwise PlacedBefore)
    (hnodup : (p.ordered.map Sensor.entryIndex).Nodup) (k : ℕ) :
    (inEntryOrder p).filter (fun it => it.id.toNat = k) =
      p.ordered.filter (fun it => it.id.toNat = k) := by
  have hsorted : IsStableSort Sensor.entryIndex p.ordered (inEntryOrder p) :=
    isStableSort_sort p.ordered
  have hperm := hsorted.perm
  -- both are the same sensors in strictly ascending entry order
  have hleft : ((inEntryOrder p).filter fun it => it.id.toNat = k).Pairwise
      fun a b => a.entryIndex < b.entryIndex := by
    refine List.Pairwise.filter _ ?_
    have hnodup' : ((inEntryOrder p).map Sensor.entryIndex).Nodup :=
      (hperm.map _).nodup_iff.mpr hnodup
    rw [List.nodup_iff_pairwise_ne, List.pairwise_map] at hnodup'
    exact (hsorted.ascending.and hnodup').imp fun hab => lt_of_le_of_ne hab.1 hab.2
  have hright : (p.ordered.filter fun it => it.id.toNat = k).Pairwise
      fun a b => a.entryIndex < b.entryIndex := by
    rw [List.pairwise_map] at hplaced
    refine (hplaced.filter _).imp_of_mem ?_
    intro a b ha hb hab
    have hka : a.id.toNat = k := by simpa using (List.mem_filter.mp ha).2
    have hkb : b.id.toNat = k := by simpa using (List.mem_filter.mp hb).2
    rcases hab with hlt | ⟨-, hlt⟩
    · exact absurd hlt (by simp [Sensor.place, hka, hkb])
    · exact hlt
  refine (hperm.filter _).eq_of_pairwise ?_ hleft hright
  intro a b _ _ hab hba
  exact absurd hab (by omega)

theorem isStableSort_objs (h : PlanInv (SensorObject table) enc entries ids encrypted limit p) :
    IsStableSort (fun o : Obj => o.id.toNat) (reported p) (p.objs.map p.object) := by
  have hsorted : IsStableSort (fun o : Obj => o.id.toNat)
      ((slots p.ordered.length (p.writable.any (·.readable))).map p.object)
      (p.objs.map p.object) := by
    rw [h.objs]
    exact (isStableSort_sort _).map fun _ => rfl
  have hnodup : (p.ordered.map Sensor.entryIndex).Nodup :=
    h.indices.nodup_iff.mpr (List.nodup_range.filter _)
  refine ⟨hsorted.ascending, fun k => ?_⟩
  have hsensors : ((inEntryOrder p).map Sensor.obj).filter (fun o => o.id.toNat = k) =
      (p.ordered.map Sensor.obj).filter (fun o => o.id.toNat = k) := by
    rw [List.filter_map, List.filter_map]
    exact congrArg _ (filter_inEntryOrder h.placed hnodup k)
  rw [hsorted.stable k, map_object_slots h.rev]
  unfold reported
  simp only [List.filter_cons, List.filter_append, hsensors]

theorem mem_reported {o : Obj} (ho : o ∈ reported p) :
    o = ⟨PKT_ID, [p.pkt]⟩ ∨ (∃ it ∈ p.ordered, it.obj = o) ∨
      ∃ byte ∈ p.rev, o = ⟨REV_ID, [byte]⟩ := by
  unfold reported at ho
  rw [List.mem_cons, List.mem_append, List.mem_map, List.mem_map] at ho
  rcases ho with rfl | ⟨it, hit, rfl⟩ | ⟨byte, hbyte, rfl⟩
  · exact Or.inl rfl
  · exact Or.inr (Or.inl ⟨it, (isStableSort_sort p.ordered).perm.subset hit, rfl⟩)
  · exact Or.inr (Or.inr ⟨byte, Option.mem_toList.mp hbyte, rfl⟩)

theorem fits_objs (hpkt : OneByte table PACKET_ID_OBJECT_ID)
    (hrev : OneByte table SETTINGS_REVISION_OBJECT_ID)
    (h : PlanInv (SensorObject table) enc entries ids encrypted limit p) :
    ∀ o ∈ p.objs.map p.object, Fits table o := by
  intro o ho
  rcases mem_reported ((isStableSort_objs h).perm.subset ho) with
    rfl | ⟨it, hit, rfl⟩ | ⟨byte, -, rfl⟩
  · exact fits_oneByte hpkt (by decide)
  · exact (h.good it hit).2.2.2
  · exact fits_oneByte hrev (by decide)

/-- The revision among the objects is the plan's, since no sensor is encoded as one. -/
theorem revisionOf_objs (h : PlanInv (SensorObject table) enc entries ids encrypted limit p) :
    revisionOf (p.objs.map p.object) = .ok (p.rev.map UInt8.toNat) := by
  have hstable := (isStableSort_objs h).stable REV_ID.toNat
  -- the first revision object is the head of those with its id, which a stable sort leaves alone
  have hpred : ∀ l : List Obj, l.find? (fun o => o.id = SETTINGS_REVISION_OBJECT_ID) =
      (l.filter fun o => o.id.toNat = REV_ID.toNat).head? := by
    intro l
    rw [List.head?_filter]
    congr 1
    funext o
    exact decide_eq_decide.mpr UInt8.toNat_inj.symm
  have hsensors : ((inEntryOrder p).map Sensor.obj).filter (fun o => o.id.toNat = REV_ID.toNat) =
      [] := by
    rw [List.filter_eq_nil_iff]
    intro o ho
    obtain ⟨it, hit, rfl⟩ := List.mem_map.mp ho
    have hgood := (h.good it ((isStableSort_sort p.ordered).perm.subset hit)).2
    have hne : it.obj.id ≠ REV_ID := hgood.2.1
    simpa [UInt8.toNat_inj] using hne
  have hreported : (reported p).filter (fun o => o.id.toNat = REV_ID.toNat) =
      p.rev.toList.map fun byte => ⟨REV_ID, [byte]⟩ := by
    have hpkt : ¬ decide ((⟨PKT_ID, [p.pkt]⟩ : Obj).id.toNat = REV_ID.toNat) = true := by
      simp only [decide_eq_true_eq]
      decide
    unfold reported
    rw [List.filter_cons, if_neg hpkt, List.filter_append, hsensors, List.nil_append,
      List.filter_eq_self]
    intro o ho
    obtain ⟨byte, -, rfl⟩ := List.mem_map.mp ho
    simp
  unfold revisionOf
  rw [hpred, hstable, hreported]
  cases p.rev <;> rfl

/-! ## Built and parsed -/

theorem buildServiceData_ok {info : UInt8} {objs : List Obj} {decl : Option Bytes} {budget : ℤ}
    {sd : Bytes} (h : buildServiceData info objs decl budget = .ok sd) :
    sd = info :: (encode objs ++ decl.getD []) ∧ (sd.length : ℤ) ≤ budget := by
  unfold buildServiceData at h
  simp only at h
  split at h
  · exact absurd h (by simp)
  · rename_i hfits
    obtain rfl := Except.ok.inj h
    exact ⟨rfl, not_lt.mp hfits⟩

theorem buildServiceData_error {info : UInt8} {objs : List Obj} {decl : Option Bytes} {budget : ℤ}
    {x : JsError} (h : buildServiceData info objs decl budget = .error x) :
    x.code = some .capacityExceeded ∧
      budget < (info :: (encode objs ++ decl.getD [])).length := by
  unfold buildServiceData at h
  simp only at h
  split at h
  · rename_i hover
    obtain rfl := Except.error.inj h
    exact ⟨rfl, hover⟩
  · exact absurd h (by simp)

theorem toNat_lowByte (x : ℤ) : ((lowByte x).toNat : ℤ) = x % 256 := by
  unfold lowByte
  rw [UInt8.toNat_ofNat']
  omega

/-- Bytes a packet takes with its framing around it. -/
def framedLength (encrypted : Bool) (sd : Bytes) : ℤ :=
  sd.length + if encrypted then ENC_OVERHEAD else 0

theorem length_sealedAdvertising {aead : Aead} (hcorrect : aead.Correct 4) (key mac : Bytes)
    {sd : Bytes} (hsd : sd ≠ []) (counter : ℕ) :
    ((sealedAdvertising aead key mac sd counter).length : ℤ) = framedLength true sd := by
  obtain ⟨info, pt, rfl⟩ := List.exists_cons_of_ne_nil hsd
  have hlength : (sealedWith aead key mac pt DEV_INFO_ENC counter).length =
      pt.length + ENC_OVERHEAD := length_sealedWith hcorrect
  simp only [sealedAdvertising, framedLength, List.drop_one, List.tail_cons, List.length_cons,
    hlength]
  push_cast
  ring

/-- What the receiver makes of service data built from the plan `p`. -/
structure Decodes (table : ObjectTable) (p : Plan) (sd : Bytes) : Prop where
  declaration : parseDeclaration table (sd.drop 1) =
    .ok (if p.writable = [] then none
      else some ⟨entriesFrom 1 (p.writable.map (·.spec.id)), p.rev.map UInt8.toNat⟩)
  objects : ∃ objects declared, splitObjects table (sd.drop 1) = .ok (objects, declared) ∧
    IsStableSort (fun o => o.id.toNat) (reported p) objects

theorem decodes_build (hpkt : OneByte table PACKET_ID_OBJECT_ID)
    (hrev : OneByte table SETTINGS_REVISION_OBJECT_ID)
    (h : PlanInv (SensorObject table) enc entries ids encrypted limit p) (info : UInt8) :
    Decodes table p (info :: (encode (p.objs.map p.object) ++ p.decl.getD [])) := by
  have hsorted := isStableSort_objs h
  have hfits := fits_objs hpkt hrev h
  by_cases hnone : p.writable = []
  · have hdecl : p.decl = none := by rw [h.decl, if_pos hnone]
    -- the packet id is always there, so the parser is not given an empty payload
    have hne : p.objs.map p.object ≠ [] := by
      intro hnil
      have hperm := hsorted.perm.length_eq
      rw [hnil] at hperm
      exact absurd hperm (by simp [reported])
    refine ⟨?_, p.objs.map p.object, none, ?_, hsorted⟩
    · rw [hdecl, if_pos hnone]
      simpa using parseDeclaration_encode hne hfits
    · rw [hdecl]
      simpa using splitObjects_encode hfits
  · have hdecl : p.decl.getD [] = DECLARATION_OBJECT_ID ::
        UInt8.ofNat (p.writable.map (·.spec.id)).length :: p.writable.map (·.spec.id) := by
      rw [h.decl, if_neg hnone, List.length_map]
      rfl
    refine ⟨?_, p.objs.map p.object, some (encode (p.objs.map p.object)).length, ?_, hsorted⟩
    · rw [hdecl, if_neg hnone]
      exact parseDeclaration_encode_declaration hfits (by rw [List.length_map]; exact h.count)
        (revisionOf_objs h)
    · rw [hdecl]
      exact splitObjects_encode_declaration hfits _

theorem map_entryIndex_inEntryOrder
    (h : PlanInv (SensorObject table) enc entries ids encrypted limit p) :
    (inEntryOrder p).map Sensor.entryIndex =
      (List.range entries.length).filter (IsSensor entries) := by
  have hsorted : IsStableSort Sensor.entryIndex p.ordered (inEntryOrder p) :=
    isStableSort_sort p.ordered
  have hascending : ((inEntryOrder p).map Sensor.entryIndex).Pairwise (· ≤ ·) := by
    rw [List.pairwise_map]
    exact hsorted.ascending
  refine ((hsorted.perm.map _).trans h.indices).eq_of_pairwise ?_ hascending
    ((List.pairwise_lt_range.filter _).imp fun hab => le_of_lt hab)
  intro a b _ _ hab hba
  exact le_antisymm hab hba

/-- One advertisement from the plan `p`, as the device renders it and the receiver reads it. -/
structure PacketAgreement (table : ObjectTable) (enc : Entry → Probe → Except JsError Obj)
    (entries : List Entry) (encrypted : Bool) (limit : ℤ) (p : Plan) (r : Render) (p' : Plan)
    (result : Except JsError Bytes) : Prop where
  writable : p'.writable.map Writable.entryIndex =
    (List.range entries.length).filter (IsWritable entries)
  specified : ∀ w ∈ p'.writable, Specified enc entries w
  sensors : (inEntryOrder p').map Sensor.entryIndex =
    (List.range entries.length).filter (IsSensor entries)
  readings : p'.ordered = match r.source with
    | none => p.ordered
    | some read => p.ordered.map (refreshed read r.now)
  packetId : (p'.pkt.toNat : ℤ) = r.pid % 256
  revision : p'.rev.map (fun byte => (byte.toNat : ℤ)) =
    if p'.writable.any (·.readable) then some (r.revision.getD 0 % 256) else none
  decodes : ∀ sd, result = .ok sd → Decodes table p' sd ∧ framedLength encrypted sd ≤ limit ∧
    if encrypted then
      ∀ (aead : Aead) (key mac : Bytes) (counter : ℕ), aead.Correct 4 →
        ((sealedAdvertising aead key mac sd counter).length : ℤ) ≤ limit
    else (sd.length : ℤ) ≤ limit
  refused : ∀ x, result = .error x → x.code = some .capacityExceeded ∧
    limit < framedLength encrypted
      (p'.info :: (encode (p'.objs.map p'.object) ++ p'.decl.getD []))

theorem packetAgreement_render (hpkt : OneByte table PACKET_ID_OBJECT_ID)
    (hrev : OneByte table SETTINGS_REVISION_OBJECT_ID)
    (h : PlanInv (SensorObject table) enc entries ids encrypted limit p) (r : Render)
    (hsource : ∀ read ∈ r.source, Encodes (SensorObject table) entries ids read) :
    PacketAgreement table enc entries encrypted limit p r (renderServiceData p r).1
      (renderServiceData p r).2 := by
  have hrendered := h.render r hsource
  have hinv := hrendered.inv
  refine
    { writable := hinv.writable
      specified := hinv.specified
      sensors := map_entryIndex_inEntryOrder hinv
      readings := hrendered.ordered
      packetId := by rw [hrendered.pkt, toNat_lowByte]
      revision := ?_
      decodes := ?_
      refused := ?_ }
  · have hreadable := h.rev
    rw [hrendered.rev, hrendered.writable, ← hreadable]
    cases p.rev with
    | none => rfl
    | some byte => simp [toNat_lowByte]
  · intro sd hsd
    rw [hrendered.result] at hsd
    obtain ⟨rfl, hbudget⟩ := buildServiceData_ok hsd
    -- the budget of the plan is the limit less what sealing adds
    have hframed : framedLength encrypted ((renderServiceData p r).1.info ::
        (encode ((renderServiceData p r).1.objs.map (renderServiceData p r).1.object) ++
          (renderServiceData p r).1.decl.getD [])) ≤ limit := by
      rw [hinv.budget] at hbudget
      unfold framedLength
      omega
    refine ⟨decodes_build hpkt hrev hinv _, hframed, ?_⟩
    cases encrypted with
    | true =>
        intro aead key mac counter hcorrect
        rw [length_sealedAdvertising hcorrect _ _ (by simp)]
        exact hframed
    | false => simpa [framedLength] using hframed
  · intro x hx
    rw [hrendered.result] at hx
    obtain ⟨hcode, hover⟩ := buildServiceData_error hx
    refine ⟨hcode, ?_⟩
    rw [hinv.budget] at hover
    unfold framedLength
    omega

/-- Over what an entry list is refused: one of the entries, the declaration they would make, or
a packet that holds everything planned and is over the limit. -/
def PlanRefused (table : ObjectTable) (enc : Entry → Probe → Except JsError Obj)
    (read : ℕ → Except JsError Obj) (entries : List Entry) (ids : ℕ → UInt8) (defRead : ℕ)
    (encrypted : Bool) (limit : ℤ) (x : JsError) : Prop :=
  planEntries enc read defRead entries 0 [] [] = .error x ∨
  (∃ sensors writable, planEntries enc read defRead entries 0 [] [] = .ok (sensors, writable) ∧
    encodeDeclaration (writable.map (·.spec.id)) = .error x) ∨
  (x.code = some .capacityExceeded ∧
    ∃ p, PlanInv (SensorObject table) enc entries ids encrypted limit p ∧
      limit < framedLength encrypted
        (p.info :: (encode (p.objs.map p.object) ++ p.decl.getD [])))

theorem planRefused_of_error {read : ℕ → Except JsError Obj} {defRead : Option ℕ}
    {limit : Option ℤ} {x : JsError} (hread : Encodes (SensorObject table) entries ids read)
    (hplan : planPacket enc read entries defRead encrypted limit = .error x) :
    PlanRefused table enc read entries ids (defRead.getD 0) encrypted (limit.getD BUDGET) x := by
  rcases planPacket_cases defRead limit hread with ⟨y, hrefused, hwhy⟩ | ⟨p, hp, hbuilt⟩
  · obtain rfl : y = x := Except.error.inj (hrefused.symm.trans hplan)
    rcases hwhy with hentry | hdeclaration
    · exact Or.inl hentry
    · exact Or.inr (Or.inl hdeclaration)
  · -- the entries were fine, so it is the packet that was too long
    rw [hbuilt] at hplan
    cases hsd : buildServiceData p.info (p.objs.map p.object) p.decl p.budget with
    | ok sd =>
        rw [hsd] at hplan
        exact absurd hplan (by simp [Except.map])
    | error y =>
        rw [hsd] at hplan
        obtain rfl : y = x := Except.error.inj hplan
        obtain ⟨hcode, hover⟩ := buildServiceData_error hsd
        rw [hp.budget] at hover
        refine Or.inr (Or.inr ⟨hcode, p, hp, ?_⟩)
        unfold framedLength
        omega

/-- Whatever has been rendered from an accepted plan before, the next packet is the plan's; and
no plan is refused for its size that would have fitted. -/
theorem advertised_packet_decodes (table : ObjectTable) (enc : Entry → Probe → Except JsError Obj)
    (entries : List Entry) (ids : ℕ → UInt8) (read : ℕ → Except JsError Obj)
    (defRead : Option ℕ) (encrypted : Bool) (limit : Option ℤ)
    (hpkt : OneByte table PACKET_ID_OBJECT_ID)
    (hrev : OneByte table SETTINGS_REVISION_OBJECT_ID)
    (hread : Encodes (SensorObject table) entries ids read) :
    (∀ (planned : Plan) (renders : List Render) (r : Render),
      planPacket enc read entries defRead encrypted limit = .ok planned →
      (∀ r' ∈ r :: renders, ∀ read' ∈ r'.source,
        Encodes (SensorObject table) entries ids read') →
      let p := Runs.run (fun p r => (renderServiceData p r).1) planned renders
      PacketAgreement table enc entries encrypted (limit.getD BUDGET) p r
        (renderServiceData p r).1 (renderServiceData p r).2) ∧
    ∀ x, planPacket enc read entries defRead encrypted limit = .error x →
      PlanRefused table enc read entries ids (defRead.getD 0) encrypted (limit.getD BUDGET) x := by
  refine ⟨?_, fun x hplan => planRefused_of_error hread hplan⟩
  intro planned renders r hplan hsources p
  have hplanned := planInv_planPacket hread hplan
  have hp : PlanInv (SensorObject table) enc entries ids encrypted (limit.getD BUDGET) p :=
    hplanned.renders fun r' hr' => hsources r' (List.mem_cons_of_mem _ hr')
  exact packetAgreement_render hpkt hrev hp r (hsources r (List.mem_cons_self ..))

def sampleTable : ObjectTable := fun id =>
  if id = 0x00 ∨ id = 0x65 then some ("unsigned_integer", 1)
  else if id = 0x02 then some ("signed_integer", 2)
  else none

def sampleEncoder : Entry → Probe → Except JsError Obj := fun _ _ => .ok ⟨0x0F, [1]⟩

/-- Two thermometers around a switch that can also be turned by hand. -/
def sampleEntries : List Entry :=
  [⟨"temperature", none, none, false, none, false, true, none⟩,
    ⟨"generic_boolean", none, none, false, none, true, true, none⟩,
    ⟨"temperature", none, none, false, none, false, true, some 1000⟩]

def sampleReading (low : UInt8) : ℕ → Except JsError Obj := fun i =>
  .ok ⟨0x02, [low, UInt8.ofNat i]⟩

theorem encodes_sampleReading (low : UInt8) :
    Encodes (SensorObject sampleTable) sampleEntries (fun _ => 0x02) (sampleReading low) :=
  have hid : (0x02 : UInt8) ≠ 0x00 ∧ (0x02 : UInt8) ≠ 0x65 ∧ (0x02 : UInt8) ≠ 0xFF := by decide
  fun _ _ => ⟨_, rfl, rfl, hid.1, hid.2.1, hid.2.2, "signed_integer", 2, rfl, rfl⟩

/-- Encrypted, with packet id 300 and revision 513 after one earlier packet; and refused where
only twenty bytes may be sent. -/
theorem advertised_packet_decodes_sample :
    (∃ planned, planPacket sampleEncoder (sampleReading 0xFF) sampleEntries none true none =
        .ok planned ∧
      let p := Runs.run (fun p r => (renderServiceData p r).1) planned [⟨0, none, 0, some 0⟩]
      let r : Render := ⟨300, some (sampleReading 7), 500, some 513⟩
      PacketAgreement sampleTable sampleEncoder sampleEntries true BUDGET p r
        (renderServiceData p r).1 (renderServiceData p r).2) ∧
    ∃ x, planPacket sampleEncoder (sampleReading 0xFF) sampleEntries none true (some 20) =
        .error x ∧
      PlanRefused sampleTable sampleEncoder (sampleReading 0xFF) sampleEntries (fun _ => 0x02) 0
        true 20 x := by
  have hpkt : OneByte sampleTable PACKET_ID_OBJECT_ID :=
    ⟨"unsigned_integer", rfl, by decide, by decide⟩
  have hrev : OneByte sampleTable SETTINGS_REVISION_OBJECT_ID :=
    ⟨"unsigned_integer", rfl, by decide, by decide⟩
  have hagreement := fun limit => advertised_packet_decodes sampleTable sampleEncoder sampleEntries
    (fun _ => 0x02) (sampleReading 0xFF) none true limit hpkt hrev (encodes_sampleReading 0xFF)
  refine ⟨⟨_, rfl, (hagreement none).1 _ [⟨0, none, 0, some 0⟩] _ rfl ?_⟩, _, rfl,
    (hagreement (some 20)).2 _ rfl⟩
  intro r' hr' read' hread'
  rcases List.mem_cons.mp hr' with rfl | hr'
  · obtain rfl := Option.some.inj hread'
    exact encodes_sampleReading 7
  · obtain rfl := List.mem_singleton.mp hr'
    exact absurd hread' (by simp)

end BTHomeWritable.Agreement
