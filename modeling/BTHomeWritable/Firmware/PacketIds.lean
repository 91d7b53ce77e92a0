import BTHomeWritable.Firmware.OnAir
import Mathlib.Data.List.Chain

/-!
# Packet ids

A receiver drops a packet whose id is that of the packet before it.  A packet
that is built draws the next id, and the bytes on the air may be repeated under
the id they have.  What is left to go wrong is the id that comes round: a
repeated `setup()` starts at 0 again, 255 ids may have gone to packets the radio
never took, and the fallback for a refused repetition draws no id at all.  In a
run that stays clear of the three (`KeepsIds`), two packets the radio accepts one
after the other are the same in clear or have different ids.

* `plainOnAir` and `idOnAir` are read off the packets handed over so far: the last
  one the radio accepted, in clear, and its id.  `Heard` says that the accepted
  ones are pairwise `ToldApart` where they are neighbours.
* `Ledger` is all of a world that an id depends on, and `Told` the invariant: what
  a change of the rate would repeat is the packet on the air.
* `Fresh` asks of a packet to be built that its id is not on the air, or that it is
  the packet on the air once more; `Standing` asks the same of what the radio takes.
  `Told.publish` is the step, for packets built and repeated alike.
* `Told.react` is an event, `BoardTold.step` the same for a device that may be set
  up again, and `accepted_packets_told_apart` the run.

`id_repeated_by_setup` is a device that is set up twice in a row.
-/

namespace BTHomeWritable.Firmware

open Device Throwing

variable {env : Env} {w u : World}

/-! ## Packets in clear -/

/-- The service data of a packet, as whoever has the device's key opens it. -/
def Handed.plaintext (env : Env) (h : Handed) : Option Bytes :=
  match h.st.key with
  | none => some h.sd
  | some key =>
      let parts := splitWrite (h.sd.drop 1)
      (env.ccm.decrypt key (nonceFor h.st.mac DEV_INFO_ENC parts.counter) parts.ct parts.mic).map
        (h.sd.headD 0 :: ·)

/-- The packet id that service data starts with. -/
def packetIdOf : Bytes → Option UInt8
  | _ :: object :: id :: _ => if object = PKT_ID then some id else none
  | _ => none

theorem counterBytes_mod (counter : ℕ) :
    counterBytes (counter % 4294967296) = counterBytes counter := by
  have hbytes : LittleEndian.ofLE (counterBytes counter) = counter % 4294967296 := by
    rw [counterBytes_eq_toLE, LittleEndian.ofLE_toLE_mod]
    rfl
  have hback : ∀ bs : Bytes, bs.length = 4 → counterBytes (LittleEndian.ofLE bs) = bs := by
    intro bs hlength
    rw [counterBytes_eq_toLE, ← hlength, LittleEndian.toLE_ofLE]
  rw [← hbytes, hback _ (length_counterBytes counter)]

/-- What was framed opens again. -/
theorem plaintext_of_framed (hcorrect : env.ccm.Correct 4) {h : Handed} {pt : Bytes}
    (hframed : Framed env h.st.key h.st.mac pt h.sd)
    (hinfo : pt.head? = some (if h.st.key.isSome then DEV_INFO_ENC else DEV_INFO)) :
    h.plaintext env = some pt := by
  unfold Handed.plaintext
  cases hkey : h.st.key with
  | none =>
      rw [hkey] at hframed
      exact congrArg some hframed
  | some key =>
      rw [hkey] at hframed hinfo
      obtain ⟨counter, hsd⟩ := hframed
      obtain ⟨rest, rfl⟩ : ∃ rest, pt = DEV_INFO_ENC :: rest := by
        cases pt with
        | nil => cases hinfo
        | cons info rest =>
            obtain rfl := Option.some.inj hinfo
            exact ⟨rest, rfl⟩
      have hnonce : nonceFor h.st.mac DEV_INFO_ENC (counter % 4294967296) =
          nonceFor h.st.mac DEV_INFO_ENC counter := by
        simp only [nonceFor, counterBytes_mod]
      have hmic := hcorrect.tag_length key (nonceFor h.st.mac DEV_INFO_ENC counter) rest
      have hparts : splitWrite (h.sd.drop 1) =
          ⟨counter % 4294967296,
            (env.ccm.encrypt key (nonceFor h.st.mac DEV_INFO_ENC counter) rest).1,
            (env.ccm.encrypt key (nonceFor h.st.mac DEV_INFO_ENC counter) rest).2⟩ := by
        rw [hsd, sealedAdvertising, List.drop_succ_cons, List.drop_zero, sealedWith,
          List.drop_succ_cons, List.drop_zero, MIC_LEN, List.take_of_length_le hmic.le,
          ← counterBytes_mod]
        exact splitWrite_append (Nat.mod_lt _ (by norm_num)) hmic
      have hhead : h.sd.headD 0 = DEV_INFO_ENC := by
        rw [hsd]
        rfl
      simp only [hparts, hnonce, hcorrect.decrypt_encrypt, Option.map_some, hhead]

/-- Whoever opens both takes the second for a repetition of the first only if it is one. -/
def ToldApart (env : Env) (h h' : Handed) : Prop :=
  ∃ sd sd' id id', h.plaintext env = some sd ∧ h'.plaintext env = some sd' ∧
    packetIdOf sd = some id ∧ packetIdOf sd' = some id' ∧ (sd = sd' ∨ id ≠ id')

/-- The packets the radio accepted. -/
def accepted (handed : List Handed) : List Handed := handed.filter (·.accepted)

/-- The packet the radio accepted last, in clear. -/
def plainOnAir (env : Env) (handed : List Handed) : Option Bytes :=
  (accepted handed).getLast?.bind (·.plaintext env)

def idOnAir (env : Env) (handed : List Handed) : Option UInt8 :=
  (plainOnAir env handed).bind packetIdOf

structure Heard (env : Env) (handed : List Handed) : Prop where
  chain : (accepted handed).IsChain (ToldApart env)
  opens : ∀ h ∈ accepted handed, ∃ sd id, h.plaintext env = some sd ∧ packetIdOf sd = some id

theorem accepted_refused {handed : List Handed} {packet : Handed}
    (h : packet.accepted = false) : accepted (handed ++ [packet]) = accepted handed := by
  simp [accepted, h]

theorem Heard.refuse {handed : List Handed} (h : Heard env handed) {packet : Handed}
    (hrefused : packet.accepted = false) : Heard env (handed ++ [packet]) :=
  ⟨(accepted_refused hrefused).symm ▸ h.chain, (accepted_refused hrefused).symm ▸ h.opens⟩

/-- A packet is accepted that the one on the air is told apart from. -/
theorem Heard.accept {handed : List Handed} (h : Heard env handed) {packet : Handed}
    (haccepted : packet.accepted = true) {pt : Bytes} {id : UInt8}
    (hopens : packet.plaintext env = some pt) (hid : packetIdOf pt = some id)
    (hapart : plainOnAir env handed = some pt ∨ idOnAir env handed ≠ some id) :
    Heard env (handed ++ [packet]) := by
  have hgrown : accepted (handed ++ [packet]) = accepted handed ++ [packet] := by
    simp [accepted, haccepted]
  constructor
  · rw [hgrown, List.isChain_append]
    refine ⟨h.chain, List.isChain_singleton _, ?_⟩
    rintro last hlast _ ⟨⟩
    obtain ⟨sd, old, hsd, hold⟩ := h.opens last (List.mem_of_getLast? hlast)
    have hplain : plainOnAir env handed = some sd := by
      rw [plainOnAir, show (accepted handed).getLast? = some last from hlast]
      exact hsd
    have honAir : idOnAir env handed = some old := by
      rw [idOnAir, hplain]
      exact hold
    refine ⟨sd, pt, old, id, hsd, hopens, hold, hid, ?_⟩
    rcases hapart with hsame | hother
    · exact .inl (Option.some.inj (hplain.symm.trans hsame))
    · refine .inr fun heq => hother ?_
      rw [honAir, heq]
  · rw [hgrown, Runs.forall_mem_concat]
    exact ⟨h.opens, pt, id, hopens, hid⟩

/-! ## What the ids depend on -/

structure Ledger where
  handed : List Handed
  lastSd : Option Bytes
  key : Option Bytes
  mac : Bytes
  info : UInt8
  objs : List Slot
  packetId : ℕ

def ledger (w : World) : Ledger where
  handed := w.handed
  lastSd := w.st.lastSd
  key := w.st.key
  mac := w.st.mac
  info := w.st.plan.info
  objs := w.st.plan.objs
  packetId := w.st.packetId

theorem ledger_sealKeeps : SealKeeps ledger where

theorem ledger_scheduleKeeps : ScheduleKeeps ledger where

theorem ledger_rateKeeps : RateKeeps ledger where

theorem ledger_serveKeeps : ServeKeeps ledger where

theorem ledger_writeKeeps : WriteKeeps ledger where

theorem ledger_readSensors : Frame (Keeps ledger) (readSensors env) :=
  keeps_readSensors (fun _ => rfl) fun _ _ _ => rfl

/-- What makes a packet with the id `id`, in clear. -/
def Stamped (l : Ledger) (id : UInt8) (pt : Bytes) : Prop :=
  ∃ rest, pt = l.info :: PKT_ID :: id :: rest

/-- The packets handed over so far are told apart, and what a change of the rate would repeat is
the last of them. -/
structure Told (env : Env) (l : Ledger) : Prop extends Heard env l.handed where
  info : l.info = if l.key.isSome then DEV_INFO_ENC else DEV_INFO
  objs : l.objs.head? = some .pkt
  cached : ∀ sd, l.lastSd = some sd → ∃ h, (accepted l.handed).getLast? = some h ∧
    h.sd = sd ∧ h.st.key = l.key ∧ h.st.mac = l.mac

theorem Told.plaintext (hcorrect : env.ccm.Correct 4) (h : Told env (ledger w)) {sd pt : Bytes}
    {id : UInt8} (hframed : Framed env w.st.key w.st.mac pt sd) (hpt : Stamped (ledger w) id pt)
    (opts : AdvOptions) : Handed.plaintext env ⟨sd, opts, true, w.st, w.held⟩ = some pt ∧
      packetIdOf pt = some id := by
  obtain ⟨rest, rfl⟩ := hpt
  exact ⟨plaintext_of_framed hcorrect hframed (congrArg some h.info), by simp [packetIdOf]⟩

/-- A packet goes out that is told apart from the one on the air. -/
theorem Told.onAir (h : Told env (ledger w)) {sd pt : Bytes} {id : UInt8} {opts : AdvOptions}
    (hopens : Handed.plaintext env ⟨sd, opts, true, w.st, w.held⟩ = some pt)
    (hid : packetIdOf pt = some id)
    (hapart : plainOnAir env w.handed = some pt ∨ idOnAir env w.handed ≠ some id) :
    Told env (ledger ((w.asked.hand sd opts true).onAir sd)) :=
  { Heard.accept h.toHeard rfl hopens hid hapart with
    info := h.info
    objs := h.objs
    cached := by
      rintro _ ⟨⟩
      refine ⟨⟨sd, opts, true, w.st, w.held⟩, ?_, rfl, rfl, rfl⟩
      simp [ledger, World.onAir, World.hand, World.asked, accepted] }

theorem Told.refused (h : Told env (ledger w)) (sd : Bytes) (opts : AdvOptions) :
    Told env (ledger (w.asked.hand sd opts false)) :=
  { Heard.refuse h.toHeard rfl with
    info := h.info
    objs := h.objs
    cached := by
      rw [show accepted (ledger (w.asked.hand sd opts false)).handed = accepted w.handed from
        accepted_refused rfl]
      exact h.cached }

theorem Told.dropLastSd (h : Told env (ledger w)) : Told env (ledger w.dropLastSd) :=
  { h with cached := by rintro _ ⟨⟩ }

/-! ## Publishing -/

/-- The radio refuses `sd` and takes the fallback. -/
def Shrinks (env : Env) (sd : Bytes) (w : World) : Prop :=
  ¬ Accepts env sd w ∧
    ∃ small u, sealIfKeyed env (fallback w) (refused sd w) = .ok small u ∧
      env.throws u.calls (.setAdvertising small { advOptions w.st with showName := false }) = none

theorem stamped_fallback (w : World) :
    Stamped (ledger w) (UInt8.ofNat (w.st.packetId % 256)) (fallback w) := ⟨[], rfl⟩

/-- Handing `sd` over keeps the packets told apart where `sd` is, and where the fallback is if it
takes its place. -/
theorem Told.publish (hcorrect : env.ccm.Correct 4) {sd pt : Bytes} {id : UInt8}
    (h : Told env (ledger w))
    (hopens : ∀ opts, Handed.plaintext env ⟨sd, opts, true, w.st, w.held⟩ = some pt)
    (hid : packetIdOf pt = some id)
    (hapart : Accepts env sd w →
      plainOnAir env w.handed = some pt ∨ idOnAir env w.handed ≠ some id)
    (hfallback : Shrinks env sd w → plainOnAir env w.handed = some (fallback w) ∨
      idOnAir env w.handed ≠ some (UInt8.ofNat (w.st.packetId % 256))) :
    Told env (ledger (left (publish env sd) w)) := by
  have hrefused : Told env (ledger (Firmware.refused sd w)) := h.refused sd _
  refine left_publish (I := fun u => Told env (ledger u)) (fun htakes => ?_) (fun _ => ?_) ?_ ?_
  · exact h.onAir (hopens _) hid (hapart htakes)
  · rw [((ledger_sealKeeps).sealIfKeyed _).left_eq (Firmware.refused sd w)]
    exact hrefused
  · intro small u hnot hsealed hu htakes
    have hledger : ledger u = ledger (Firmware.refused sd w) :=
      ((ledger_sealKeeps).sealIfKeyed _).ok hsealed
    -- the refused packet is not among the accepted ones, so the fallback comes right
    -- after what was on the air before
    have hsame : accepted u.handed = accepted w.handed := by
      rw [show u.handed = (Firmware.refused sd w).handed from congrArg Ledger.handed hledger]
      exact accepted_refused rfl
    have hframed : Framed env u.st.key u.st.mac (fallback w) small := by
      rw [show u.st.key = w.st.key from congrArg Ledger.key hledger,
        show u.st.mac = w.st.mac from congrArg Ledger.mac hledger]
      exact sealIfKeyed_ok (w := Firmware.refused sd w) hsealed
    have hstamped : Stamped (ledger u) (UInt8.ofNat (w.st.packetId % 256)) (fallback w) := by
      rw [hledger]
      exact stamped_fallback w
    obtain ⟨hplain, hplainId⟩ := hu.plaintext hcorrect hframed hstamped
      { advOptions w.st with showName := false }
    refine hu.onAir hplain hplainId ?_
    unfold idOnAir plainOnAir
    rw [hsame]
    exact hfallback ⟨hnot, small, u, hsealed, htakes⟩
  · intro small u _ hu
    exact (hu.refused small _).dropLastSd

/-- The next packet id is not the one on the air; or it is, and what the radio takes under it, the
packet that is built or the fallback, is the packet on the air once more. -/
def Fresh (env : Env) (cached : Bool) (w : World) : Prop :=
  idOnAir env w.handed = some (UInt8.ofNat ((w.st.packetId + 1) % 256)) →
    ∀ sd frame u, rendered env cached w = .ok sd →
      sealIfKeyed env sd (renderedWorld env cached w) = .ok frame u →
      (Accepts env frame u → plainOnAir env w.handed = some sd) ∧
        (Shrinks env frame u → plainOnAir env w.handed = some (fallback u))

/-- The radio goes on taking the packet it has under the current id, or what it takes instead is
told apart from that. -/
def Standing (env : Env) (sd : Bytes) (w : World) : Prop :=
  Shrinks env sd w → plainOnAir env w.handed = some (fallback w) ∨
    idOnAir env w.handed ≠ some (UInt8.ofNat (w.st.packetId % 256))

theorem lowByte_natCast (n : ℕ) : lowByte (n : ℤ) = UInt8.ofNat (n % 256) := by
  unfold lowByte
  rw [show ((n : ℤ) % 256).toNat = n % 256 by omega]

/-- What is rendered carries the id just drawn. -/
theorem stamped_rendered {cached : Bool} {sd : Bytes} (hobjs : w.st.plan.objs.head? = some .pkt)
    (h : rendered env cached w = .ok sd) :
    Stamped (ledger w) (UInt8.ofNat ((w.st.packetId + 1) % 256)) sd := by
  have hbuilt : buildPlan (renderedPlan w.st.plan (renderOf env cached w)) = .ok sd := by
    unfold rendered at h
    cases hreads : (renderReads (renderOf env cached w) w.st.plan.ordered).2 with
    | error x =>
        rw [hreads] at h
        cases h
    | ok moved =>
        rw [hreads] at h
        exact h
  obtain ⟨rest, hrest⟩ := List.head?_eq_some_iff.mp hobjs
  have hid : lowByte (renderOf env cached w).pid = UInt8.ofNat ((w.st.packetId + 1) % 256) := by
    show lowByte (((w.st.packetId + 1) % 256 : ℕ) : ℤ) = _
    rw [lowByte_natCast, Nat.mod_mod]
  have hobjs' : (renderedPlan w.st.plan (renderOf env cached w)).objs = .pkt :: rest := hrest
  rw [buildPlan_ok hbuilt, hobjs', ← hid]
  exact ⟨_, rfl⟩

/-- Building a packet and handing it over. -/
theorem Told.refresh (hcorrect : env.ccm.Correct 4) {cached : Bool} (h : Told env (ledger w))
    (hfresh : Fresh env cached w) :
    Told env (ledger (left (refreshAdvertising env cached) w)) := by
  have hdrawn : Told env (ledger (renderedWorld env cached w)) := { h with }
  cases hrendered : rendered env cached w with
  | error x =>
      rw [refreshAdvertising, left_error (bind_of_error (rebuild_of_error hrendered))]
      exact hdrawn
  | ok sd =>
      refine left_bind (I := fun u => Told env (ledger u)) ?_ ?_
      · rw [left_congr (rebuild_of_ok hrendered), ((ledger_sealKeeps).sealIfKeyed sd).left_eq]
        exact hdrawn
      intro frame u hrebuilt hu
      rw [rebuild_of_ok hrendered] at hrebuilt
      have hledger : ledger u = ledger (renderedWorld env cached w) :=
        ((ledger_sealKeeps).sealIfKeyed sd).ok hrebuilt
      have hframed : Framed env u.st.key u.st.mac sd frame := by
        rw [show u.st.key = w.st.key from congrArg Ledger.key hledger,
          show u.st.mac = w.st.mac from congrArg Ledger.mac hledger]
        exact sealIfKeyed_ok (w := renderedWorld env cached w) hrebuilt
      have hstamped : Stamped (ledger u) (UInt8.ofNat ((w.st.packetId + 1) % 256)) sd := by
        rw [hledger]
        exact stamped_rendered h.objs hrendered
      have hhanded : u.handed = w.handed := congrArg Ledger.handed hledger
      have hid : u.st.packetId % 256 = (w.st.packetId + 1) % 256 := by
        rw [show u.st.packetId = (w.st.packetId + 1) % 256 from congrArg Ledger.packetId hledger,
          Nat.mod_mod]
      have hopens := fun opts => (hu.plaintext hcorrect hframed hstamped opts).1
      obtain ⟨-, hpacketId⟩ := hu.plaintext hcorrect hframed hstamped (advOptions u.st)
      -- where the id has come round, `hfresh` says that the packet has not changed
      by_cases hdrawnAgain :
          idOnAir env w.handed = some (UInt8.ofNat ((w.st.packetId + 1) % 256))
      · obtain ⟨hsame, hsame'⟩ := hfresh hdrawnAgain sd frame u hrendered hrebuilt
        rw [← hhanded] at hsame hsame'
        exact hu.publish hcorrect hopens hpacketId (fun h => .inl (hsame h))
          fun h => .inl (hsame' h)
      · rw [← hhanded] at hdrawnAgain
        exact hu.publish hcorrect hopens hpacketId (fun _ => .inr hdrawnAgain) fun _ =>
          .inr (hid ▸ hdrawnAgain)

/-- What a change of the rate publishes is told apart from what is on the air, or is that. -/
def RateKeepsIds (env : Env) (w : World) : Prop :=
  (w.st.lastSd = none → Fresh env false w) ∧ ∀ sd, w.st.lastSd = some sd → Standing env sd w

theorem Told.republishRate (hcorrect : env.ccm.Correct 4) (h : Told env (ledger w))
    (hkeeps : RateKeepsIds env w) : Told env (ledger (left (republishRate env) w)) := by
  refine left_bind (I := fun u => Told env (ledger u)) h ?_
  rintro _ _ ⟨⟩ -
  cases hlast : w.st.lastSd with
  | none =>
      simp only [id_eq, hlast]
      exact h.refresh hcorrect (hkeeps.1 hlast)
  | some sd =>
      simp only [id_eq, hlast]
      obtain ⟨packet, hpacket, hsd, hkey, hmac⟩ := h.cached sd hlast
      obtain ⟨pt, id, hplain, hid⟩ := h.opens packet (List.mem_of_getLast? hpacket)
      have hopens : ∀ opts, Handed.plaintext env ⟨sd, opts, true, w.st, w.held⟩ = some pt := by
        intro opts
        rw [← hplain]
        unfold Handed.plaintext
        rw [hsd, hkey, hmac]
        rfl
      have honAir : plainOnAir env w.handed = some pt := by
        rw [plainOnAir, show (accepted w.handed).getLast? = some packet from hpacket]
        exact hplain
      exact h.publish hcorrect hopens hid (fun _ => .inl honAir) (hkeeps.2 sd hlast)

/-! ## Events that do not repeat an id -/

def TickKeepsIds (env : Env) (w : World) : Prop :=
  ∀ u, readSensors env w = .ok true u → Fresh env true u

def ReactionKeepsIds (env : Env) (w : World) : Prop :=
  TickKeepsIds env (left goFast w) ∧
    ∀ u v, goFast w = .ok true u → tick env u = .ok false v → RateKeepsIds env v

def JobKeepsIds (env : Env) : Job → World → Prop
  | .wake, w => TickKeepsIds env w
  | .goIdle, w => RateKeepsIds env w.slowDown
  | .publishChange, w =>
      ∀ u, publishReads env w.st.plan.writable w.countChange = .ok () u → Fresh env false u

def IntervalKeepsIds (env : Env) (w : World) : Prop :=
  w.st.fastTimer = none ∧ w.st.advInterval ≠ w.st.interval →
    RateKeepsIds env (w.setAdvInterval w.st.interval)

/-- Where a packet is built its id is not on the air yet, and where the packet on the air is
repeated the radio does not take the fallback in its place under the same id. -/
def EventKeepsIds (env : Env) (w : World) : Event → Prop
  | .update => Fresh env false (w.setOrdered (forgetReads w.st.plan.ordered))
  | .setAdvertisingInterval ms =>
      (∃ v, checkInterval "interval" ms = .ok v) → IntervalKeepsIds env (retimed env ms w)
  | .write k data => ∀ u, Takes env k data w u → ReactionKeepsIds env u
  | .connect => ∀ u, w.listening = true → goFast w = .ok true u → RateKeepsIds env u
  | .fire handle => ∀ t, w.timers.find? (·.handle = handle) = some t →
      JobKeepsIds env t.job (w.clearTimeout handle)
  | .changed | .setFastTimeout _ | .challenge _ | .disconnect | .turn => True

/-- The same of a `setup()`, whose first packet has id 1. -/
def KeepsIds (env : Env) (b : Board) : BoardEvent → Prop
  | .setup opts => ∀ next u, buildNext env opts b.nextObject b.toOutside = .ok next →
      claim env opts (b.swap next) = .ok () u → Fresh env false u
  | .on event => ∀ st, b.st = some st → EventKeepsIds env (b.world st) event

theorem Told.guarded {p : Fw Unit} (h : Told env (ledger (left p w))) :
    Told env (ledger (left (guarded env p) w)) := by
  refine left_attempt (I := fun u => Told env (ledger u)) h ?_
  intro e t _ ht
  rw [(keeps_report (ledger_sealKeeps).asked e).left_eq t]
  exact ht

section Events

variable (hcorrect : env.ccm.Correct 4)

include hcorrect

theorem Told.tick (h : Told env (ledger w)) (hkeeps : TickKeepsIds env w) :
    Told env (ledger (left (tick env) w)) := by
  refine left_bind (I := fun u => Told env (ledger u)) ?_ ?_
  · rw [(ledger_readSensors).left_eq w]
    exact h
  intro moved u hread hu
  refine left_bind (I := fun u => Told env (ledger u)) ?_ ?_
  · cases moved with
    | false => exact hu
    | true => exact hu.refresh hcorrect (hkeeps u hread)
  intro _ v _ hv
  refine left_bind (I := fun u => Told env (ledger u)) ?_ fun _ t _ ht => ht
  rw [(ledger_scheduleKeeps).schedule.left_eq v]
  exact hv

theorem Told.wake (h : Told env (ledger w)) (hkeeps : TickKeepsIds env w) :
    Told env (ledger (left (wake env) w)) := by
  refine left_attempt (I := fun u => Told env (ledger u)) ?_ ?_
  · refine left_bind (I := fun u => Told env (ledger u)) (h.tick hcorrect hkeeps) ?_
    exact fun _ t _ ht => ht
  · intro e t _ ht
    have hkept : Frame (Keeps ledger)
        (do report env e; update fun w => w.setTimer (w.st.interval + READ_SLACK) : Fw Unit) :=
      Frame.bind (keeps_report (ledger_sealKeeps).asked e) fun _ => Frame.update fun _ => rfl
    rw [hkept.left_eq t]
    exact ht

/-- A refresh, and what an `update()` or a `publishChange` does after it. -/
theorem Told.refreshAndSchedule (h : Told env (ledger w)) (hfresh : Fresh env false w) :
    Told env (ledger (left (do
      refreshAdvertising env false
      schedule env
      update World.noteReturn : Fw Unit) w)) := by
  refine left_bind (I := fun u => Told env (ledger u)) (h.refresh hcorrect hfresh) ?_
  intro _ u _ hu
  refine left_bind (I := fun u => Told env (ledger u)) ?_ fun _ t _ ht => ht
  rw [(ledger_scheduleKeeps).schedule.left_eq u]
  exact hu

theorem Told.publishChange (h : Told env (ledger w)) (hkeeps : JobKeepsIds env .publishChange w) :
    Told env (ledger (left (publishChange env) w)) := by
  rw [left_congr (publishChange_eq env w)]
  have hcounted : Told env (ledger w.countChange) := h
  refine left_bind (I := fun u => Told env (ledger u)) hcounted ?_
  rintro _ _ ⟨⟩ -
  refine left_bind (I := fun u => Told env (ledger u)) ?_ ?_
  · rw [((ledger_serveKeeps).publishReads _).left_eq w.countChange]
    exact hcounted
  · intro _ u hreads hu
    exact hu.refreshAndSchedule hcorrect (hkeeps u hreads)

theorem Told.runJob (h : Told env (ledger w)) {job : Job} (hkeeps : JobKeepsIds env job w) :
    Told env (ledger (left (runJob env job) w)) := by
  cases job with
  | wake => exact h.wake hcorrect hkeeps
  | goIdle =>
      have hslow : Told env (ledger w.slowDown) := h
      show Told env (ledger (left (goIdle env) w))
      unfold goIdle
      rw [left_bind_of_ok (update_apply _ w)]
      exact hslow.republishRate hcorrect hkeeps
  | publishChange => exact (h.publishChange hcorrect hkeeps).guarded

theorem Told.onConnect (h : Told env (ledger w))
    (hkeeps : ∀ u, goFast w = .ok true u → RateKeepsIds env u) :
    Told env (ledger (left (onConnect env) w)) := by
  refine left_bind (I := fun u => Told env (ledger u)) ?_ ?_
  · rw [(ledger_rateKeeps).goFast.left_eq w]
    exact h
  · intro faster u hfast hu
    cases faster with
    | false => exact hu
    | true => exact hu.republishRate hcorrect (hkeeps u hfast)

theorem Told.setAdvertisingInterval (h : Told env (ledger w)) {ms : ℤ}
    (hkeeps : EventKeepsIds env w (.setAdvertisingInterval ms)) :
    Told env (ledger (left (setAdvertisingInterval env ms) w)) := by
  cases hcheck : checkInterval "interval" ms with
  | error x =>
      rw [left_error (setAdvertisingInterval_of_error hcheck)]
      exact h
  | ok v =>
      obtain rfl := checkInterval_ok hcheck
      have hscheduled : retimed env v w = scheduled env (w.retime v) :=
        left_ok (schedule_eq env (w.retime v))
      have hretimed : Told env (ledger (retimed env v w)) := by
        unfold retimed
        dsimp only
        rw [(ledger_scheduleKeeps).schedule.left_eq]
        exact { h with }
      rw [left_congr (setAdvertisingInterval_of_ok hcheck), ← hscheduled]
      refine left_bind (I := fun u => Told env (ledger u)) hretimed ?_
      rintro _ _ ⟨⟩ -
      refine left_bind (I := fun u => Told env (ledger u)) ?_ fun _ _ _ hu => hu
      unfold doIf
      split
      · rename_i hfollows
        rw [left_bind_of_ok (update_apply _ _)]
        exact Told.republishRate hcorrect (w := (retimed env v w).setAdvInterval _)
          { hretimed with } (hkeeps ⟨v, hcheck⟩ hfollows)
      · exact hretimed

theorem Told.reaction (h : Told env (ledger w)) (hkeeps : ReactionKeepsIds env w) :
    Told env (ledger (left (reaction env) w)) := by
  refine left_bind (I := fun u => Told env (ledger u)) ?_ ?_
  · rw [(ledger_rateKeeps).goFast.left_eq w]
    exact h
  intro faster u hfast hu
  have htick : TickKeepsIds env u := left_ok hfast ▸ hkeeps.1
  refine left_bind (I := fun u => Told env (ledger u)) (hu.tick hcorrect htick) ?_
  intro moved v hmoved hv
  cases moved with
  | true => exact hv
  | false =>
      cases faster with
      | false => exact hv
      | true => exact hv.republishRate hcorrect (hkeeps.2 u v hfast hmoved)

theorem Told.onWrite {k : ℕ} {data : Bytes} (h : Told env (ledger w))
    (hkeeps : EventKeepsIds env w (.write k data)) :
    Told env (ledger (left (onWrite env k data) w)) := by
  rcases onWrite_cases env k data w with ⟨u, htakes, hkept, hleft⟩ | ⟨-, hkept⟩
  · have hu : Told env (ledger u) := by
      rw [hkept ledger ledger_writeKeeps]
      exact h
    rw [hleft]
    exact (hu.reaction hcorrect (hkeeps u htakes)).guarded
  · rw [hkept ledger ledger_writeKeeps]
    exact h

theorem Told.react (h : Told env (ledger w)) {event : Event} (hkeeps : EventKeepsIds env w event) :
    Told env (ledger (react env w event)) := by
  have hkept : ∀ {u : World}, ledger u = ledger w → Told env (ledger u) := by
    intro u hu
    rw [hu]
    exact h
  cases event with
  | update =>
      show Told env (ledger (left (updateNow env) w))
      unfold updateNow
      rw [left_bind_of_ok (update_apply _ w)]
      exact Told.refreshAndSchedule hcorrect (w := w.setOrdered _) { h with } hkeeps
  | changed => exact hkept ((keeps_changed fun _ => rfl).left_eq w)
  | setAdvertisingInterval ms => exact h.setAdvertisingInterval hcorrect hkeeps
  | setFastTimeout ms => exact hkept ((keeps_setFastTimeout (fun _ _ => rfl) ms).left_eq w)
  | write k data => exact h.onWrite hcorrect hkeeps
  | challenge data =>
      simp only [Firmware.react]
      split
      · exact hkept (((ledger_writeKeeps).onChallenge data).left_eq w)
      · exact h
  | connect =>
      simp only [Firmware.react]
      split
      · rename_i hlistening
        exact (h.onConnect hcorrect fun u hfast => hkeeps u hlistening hfast).guarded
      · exact h
  | disconnect =>
      simp only [Firmware.react]
      split
      · exact hkept ((keeps_guarded (ledger_sealKeeps).asked
          ((ledger_rateKeeps).goIdleAfterTimeout fun _ => rfl)).left_eq w)
      · exact h
  | fire handle =>
      simp only [Firmware.react, fire]
      split
      · exact h
      · rename_i t ht
        exact Told.runJob hcorrect (w := w.clearTimeout handle) { h with } (hkeeps t ht)
  | turn => exact hkept ((ledger_serveKeeps).runAll (fun _ _ => rfl) _ _)

end Events

/-! ## `setup()` -/

theorem told_planPacket {enc : Entry → Probe → Except JsError Obj} {read : ℕ → Except JsError Obj}
    {entries : List Entry} {defRead : Option ℕ} {encrypted : Bool} {limit : Option ℤ} {p : Plan}
    (h : planPacket enc read entries defRead encrypted limit = .ok p) :
    p.info = (if encrypted then DEV_INFO_ENC else DEV_INFO) ∧ p.objs.head? = some .pkt := by
  obtain ⟨sensors, writable, decl, n, -, rfl⟩ := planPacket_ok h
  rw [renderServiceData_eq]
  refine ⟨rfl, ?_⟩
  exact (StableSort.isStableSort_sort _).head? fun slot _ => Nat.zero_le _

/-- The packets of a device so far are told apart, and the next one will be if it is fresh. -/
def BoardTold (env : Env) (b : Board) : Prop :=
  Heard env b.handed ∧ ∀ st, b.st = some st → Told env (ledger (b.world st))

theorem boardTold_board (h : Told env (ledger w)) : BoardTold env w.board :=
  ⟨h.toHeard, by
    rintro st ⟨⟩
    exact h⟩

theorem Told.install (hcorrect : env.ccm.Correct 4) {opts : SetupOpts} (h : Told env (ledger w))
    (hfresh : ∀ u, claim env opts w = .ok () u → Fresh env false u) :
    Told env (ledger (left (install env opts) w)) := by
  rw [install_eq]
  refine left_bind (I := fun u => Told env (ledger u)) ?_ ?_
  · rw [((ledger_serveKeeps).claim (fun _ _ => rfl) opts).left_eq w]
    exact h
  intro _ u hclaimed hu
  have hkept : Frame (Keeps ledger) (attend env) :=
    Frame.bind (ledger_scheduleKeeps).schedule fun _ => Frame.update fun _ => rfl
  rw [left_always, hkept.left_eq]
  exact hu.refresh hcorrect (hfresh u hclaimed)

theorem BoardTold.setup (hcorrect : env.ccm.Correct 4) {b : Board} {opts : SetupOpts}
    (h : BoardTold env b) (hkeeps : KeepsIds env b (.setup opts)) :
    BoardTold env (left (setup env opts) b) := by
  cases hnext : buildNext env opts b.nextObject b.toOutside with
  | error e =>
      rw [left_setup_of_error hnext]
      exact ⟨h.1, fun st hst => { h.2 st hst with }⟩
  | ok next =>
      have hbuilt := built_of_buildNext hnext
      obtain ⟨hinfo, hobjs⟩ := told_planPacket hbuilt.plan
      have hswapped : Told env (ledger (b.swap next)) :=
        { h.1 with
          chain := by
            show (accepted (b.swap next).handed).IsChain _
            rw [handed_swap]
            exact h.1.chain
          opens := by
            show ∀ h ∈ accepted (b.swap next).handed, _
            rw [handed_swap]
            exact h.1.opens
          info := hinfo
          objs := hobjs
          cached := by
            intro sd hsd
            have hnone : next.lastSd = some sd := hsd
            rw [hbuilt.lastSd] at hnone
            cases hnone }
      have hinstalled := hswapped.install hcorrect fun u hclaimed => hkeeps next u hnext hclaimed
      rw [left_setup_of_ok hnext]
      exact boardTold_board hinstalled

theorem BoardTold.step (hcorrect : env.ccm.Correct 4) {b : Board} {event : BoardEvent}
    (h : BoardTold env b) (hkeeps : KeepsIds env b event) :
    BoardTold env (Board.step env b event) := by
  cases event with
  | setup opts => exact h.setup hcorrect hkeeps
  | on event =>
      unfold Board.step
      cases hst : b.st with
      | none => exact h
      | some st => exact boardTold_board ((h.2 st hst).react hcorrect (hkeeps st hst))

/-- In a run from power-on that repeats no id, of two packets the radio accepts one after the other
the second is a repetition of the first or has another id. -/
theorem accepted_packets_told_apart (env : Env) (hcorrect : env.ccm.Correct 4)
    (file : Option MarksFile) (events : List BoardEvent)
    (hkeeps : Runs.Along (Board.step env) (KeepsIds env) (Board.powerOn file) events) :
    (accepted (Runs.run (Board.step env) (Board.powerOn file) events).handed).IsChain
      (ToldApart env) := by
  have hstep : ∀ (b : Board) (event : BoardEvent), BoardTold env b → KeepsIds env b event →
      BoardTold env (Board.step env b event) := fun _ _ h hevent => h.step hcorrect hevent
  have hstart : BoardTold env (Board.powerOn file) :=
    ⟨⟨List.isChain_nil, fun h hh => by cases hh⟩, fun st hst => by cases hst⟩
  exact (Runs.run_invariant hstep hstart hkeeps).1.chain

set_option maxRecDepth 4000 in
/-- A device with a key is set up and updated once. -/
theorem accepted_packets_told_apart_sample :
    ((accepted (Runs.run (Board.step sampleEnv) (Board.powerOn none)
      [.setup sampleKeyed, .on .update]).handed).map (·.opts.interval)) = [1000, 1000] ∧
    (accepted (Runs.run (Board.step sampleEnv) (Board.powerOn none)
      [.setup sampleKeyed, .on .update]).handed).IsChain (ToldApart sampleEnv) := by
  refine ⟨by decide, accepted_packets_told_apart sampleEnv (Aead.tagging_ideal [] []).toCorrect none
    [.setup sampleKeyed, .on .update] ⟨?_, ?_, trivial⟩⟩
  · intro next u _ hclaimed hagain
    have hledger : ledger u = ledger ((Board.powerOn none).swap next) :=
      ((ledger_serveKeeps).claim (fun _ _ => rfl) sampleKeyed).ok hclaimed
    rw [show u.handed = [] from congrArg Ledger.handed hledger] at hagain
    cases hagain
  · rintro st ⟨⟩ hagain
    exact absurd hagain (by decide)

/-- Every reading differs from the ones before. -/
def countingEnv : Env :=
  { sampleEnv with read := fun n _ => .ok ⟨0x01, [UInt8.ofNat n]⟩ }

/-- A device that is set up again, as one being developed on is. -/
def repeatedSetup : Board :=
  Runs.run (Board.step countingEnv) (Board.powerOn none) [.setup sampleOpts, .setup sampleOpts]

set_option maxRecDepth 4000 in
/-- Both packets have id 1, and the second has another battery reading. -/
theorem id_repeated_by_setup :
    countingEnv.ccm.Correct 4 ∧
      (accepted repeatedSetup.handed).map (·.plaintext countingEnv) =
        [some [0x40, 0x00, 0x01, 0x01, 0x01, 0x65, 0x00, 0xFF, 0x01, 0x0F],
          some [0x40, 0x00, 0x01, 0x01, 0x0A, 0x65, 0x00, 0xFF, 0x01, 0x0F]] ∧
      ¬ (accepted repeatedSetup.handed).IsChain (ToldApart countingEnv) := by
  have hplain : (accepted repeatedSetup.handed).map (·.plaintext countingEnv) =
      [some [0x40, 0x00, 0x01, 0x01, 0x01, 0x65, 0x00, 0xFF, 0x01, 0x0F],
        some [0x40, 0x00, 0x01, 0x01, 0x0A, 0x65, 0x00, 0xFF, 0x01, 0x0F]] := by decide
  refine ⟨(Aead.tagging_ideal [] []).toCorrect, hplain, ?_⟩
  obtain ⟨first, rest, hpackets, hfirst, hrest⟩ := List.map_eq_cons_iff.mp hplain
  obtain ⟨second, _, rfl, hsecond, hnone⟩ := List.map_eq_cons_iff.mp hrest
  obtain rfl := List.map_eq_nil_iff.mp hnone
  rw [hpackets, List.isChain_pair]
  rintro ⟨sd, sd', id, id', hsd, hsd', hid, hid', hapart⟩
  obtain rfl := Option.some.inj (hfirst.symm.trans hsd)
  obtain rfl := Option.some.inj (hsecond.symm.trans hsd')
  obtain rfl := Option.some.inj hid
  obtain rfl := Option.some.inj hid'
  revert hapart
  decide

end BTHomeWritable.Firmware
