import BTHomeWritable.Firmware.Picture

/-!
# From the picture to the radio

What building a packet, handing it to the radio and reading the sensors do to a
device whose packet on the air is the one it means to send.  A packet that the
radio takes brings the air up to date; one that it refuses leaves the old packet
there or, worse, the fallback; and a reading that moved is up to the packet that
is built after it.

`InSync` is the invariant: the air shows the picture, so does the packet that a
change of the rate would repeat, and every return so far found the air up to date
(`Sound`).  Each program has a condition under which it keeps the invariant, on
the state before it and on what its calls come to:

* `RefreshLossless` with `InSync.refresh`, for building a packet and publishing it;
* `RateLossless` with `InSync.republishRate`, for repeating one;
* `TickLossless` with `InSync.tick`, for a wake: if a reading moved, the packet
  that says so gets out.

What a packet shows is settled where it is built (`bytes_of_rendered`,
`shownBy_rebuild`); that the picture stands still where no reading moves is
`outlook_rebuild_unmoved`.
-/

namespace BTHomeWritable.Firmware

open Device Throwing

variable {env : Env} {w u : World} {before : List Snapshot}

/-! ## In sync -/

/-- The last packet the radio accepted carries what the device held. -/
def Matches (env : Env) (s : Snapshot) : Prop :=
  ∃ frame sd, s.air = some frame ∧ Framed env s.st.key s.st.mac sd frame ∧
    Carries s.st.plan s.st.revision sd

/-- Every return since `before` found the air up to date. -/
structure Sound (env : Env) (before : List Snapshot) (o : Outlook) : Prop where
  whole : o.picture.Whole
  noted : ∃ later, o.returned = before ++ later ∧ ∀ s ∈ later, Matches env s

/-- The air is up to date, and so is the packet a change of the rate would repeat. -/
structure InSync (env : Env) (before : List Snapshot) (o : Outlook) : Prop
    extends Sound env before o where
  aired : ∃ frame, o.air = some frame ∧ o.picture.ShownBy env frame
  cached : ∀ sd, o.lastSd = some sd → o.picture.ShownBy env sd

theorem InSync.matches (h : InSync env before (outlook w)) : Matches env ⟨w.st, w.air⟩ := by
  obtain ⟨frame, hair, pid, hframed⟩ := h.aired
  exact ⟨frame, _, hair, hframed, carries_of_whole h.whole pid⟩

theorem InSync.noteReturn (h : InSync env before (outlook w)) :
    InSync env before (outlook w.noteReturn) := by
  obtain ⟨later, hreturned, hlater⟩ := h.noted
  refine { h with noted := ⟨later ++ [⟨w.st, w.air⟩], ?_, ?_⟩ }
  · show w.returned ++ _ = _
    rw [show w.returned = before ++ later from hreturned, List.append_assoc]
  · exact Runs.forall_mem_concat.mpr ⟨hlater, h.matches⟩

/-- A packet that shows the picture is on the air. -/
theorem Sound.onAir {sd : Bytes} (h : Sound env before (outlook w))
    (hshown : (picture w.st).ShownBy env sd) : InSync env before (outlook (w.onAir sd)) :=
  { h with
    aired := ⟨sd, rfl, hshown⟩
    cached := by
      rintro _ ⟨⟩
      exact hshown }

/-! ## Building a packet -/

/-- What `refreshAdvertising` renders with. -/
def renderOf (env : Env) (cached : Bool) (w : World) : Render where
  pid := w.bumpPacketId.st.packetId
  source := if cached then none else some (env.reading (w.calls + 1))
  now := env.clock w.calls
  revision := some w.st.revision

/-- The device once the packet has been rendered, for better or worse. -/
def renderedWorld (env : Env) (cached : Bool) (w : World) : World :=
  w.bumpPacketId.asked.asked.setPlan (renderedPlan w.st.plan (renderOf env cached w))

/-- What rendering returns. -/
def rendered (env : Env) (cached : Bool) (w : World) : Except JsError Bytes :=
  (renderReads (renderOf env cached w) w.st.plan.ordered).2.bind fun _ =>
    buildPlan (renderedPlan w.st.plan (renderOf env cached w))

theorem render_eq (cached : Bool) (w : World) :
    render env cached (env.clock w.calls) w.bumpPacketId.asked =
      .ok (rendered env cached w) (renderedWorld env cached w) := by
  unfold render
  simp only [renderServiceData_eq]
  rfl

theorem rebuild_of_error {cached : Bool} {x : JsError} (h : rendered env cached w = .error x) :
    rebuild env cached w = .error x (renderedWorld env cached w) := by
  unfold rebuild
  rw [update_bind, bind_of_ok (show getTime env w.bumpPacketId =
    .ok (env.clock w.calls) w.bumpPacketId.asked from rfl), bind_of_ok (render_eq cached w), h]
  rfl

theorem rebuild_of_ok {cached : Bool} {sd : Bytes} (h : rendered env cached w = .ok sd) :
    rebuild env cached w = sealIfKeyed env sd (renderedWorld env cached w) := by
  unfold rebuild
  rw [update_bind, bind_of_ok (show getTime env w.bumpPacketId =
    .ok (env.clock w.calls) w.bumpPacketId.asked from rfl), bind_of_ok (render_eq cached w), h]

theorem buildPlan_ok {p : Plan} {sd : Bytes} (h : buildPlan p = .ok sd) :
    sd = p.info :: (encode (p.objs.map p.object) ++ p.decl.getD []) := by
  unfold buildPlan buildServiceData at h
  dsimp only at h
  split at h
  · cases h
  · exact (Except.ok.inj h).symm

/-- A plan that was rendered with the revision at hand holds the objects of the picture. -/
theorem object_picture {st : St}
    (hrev : st.plan.rev = st.plan.rev.map fun _ => lowByte st.revision) (slot : Slot) :
    (picture st).object st.plan.pkt slot = st.plan.object slot := by
  cases slot with
  | pkt => rfl
  | sensor i =>
      simp only [Picture.object, Plan.object, picture, List.getD_eq_getElem?_getD,
        List.getElem?_map]
      cases st.plan.ordered[i]? <;> rfl
  | rev =>
      simp only [Picture.object, Plan.object, picture]
      rw [← hrev]

/-- What is rendered is the picture. -/
theorem bytes_of_rendered {cached : Bool} {sd : Bytes} (h : rendered env cached w = .ok sd) :
    ∃ pid, sd = (picture (renderedWorld env cached w).st).bytes pid := by
  have hbuilt : buildPlan (renderedWorld env cached w).st.plan = .ok sd := by
    unfold rendered at h
    cases hreads : (renderReads (renderOf env cached w) w.st.plan.ordered).2 with
    | error x =>
        rw [hreads] at h
        cases h
    | ok moved =>
        rw [hreads] at h
        exact h
  refine ⟨(renderedWorld env cached w).st.plan.pkt, (buildPlan_ok hbuilt).trans ?_⟩
  have hrev : (renderedWorld env cached w).st.plan.rev =
      (renderedWorld env cached w).st.plan.rev.map
        fun _ => lowByte (renderedWorld env cached w).st.revision := by
    show w.st.plan.rev.map _ = (w.st.plan.rev.map _).map _
    rw [Option.map_map]
    rfl
  unfold Picture.bytes
  rw [show (picture (renderedWorld env cached w).st).object _ = _ from
    funext (object_picture hrev)]
  rfl

theorem sealUnder_ok {pt sealed : Bytes} {info : UInt8}
    (h : sealUnder env pt info w = .ok sealed u) :
    ∃ key, w.st.key = some key ∧
      sealed = sealedWith env.ccm key w.st.mac pt info w.st.advCounter := by
  unfold sealUnder at h
  simp only [look_bind, update_bind, id_eq] at h
  obtain ⟨_, _, -, h⟩ := bind_ok.mp h
  obtain ⟨_, _, -, h⟩ := bind_ok.mp h
  cases hkey : w.st.key with
  | none =>
      rw [hkey] at h
      cases h
  | some key =>
      rw [hkey] at h
      obtain ⟨rfl, -⟩ := EStateM.Result.ok.inj h
      exact ⟨key, rfl, rfl⟩

theorem sealIfKeyed_ok {sd frame : Bytes} (h : sealIfKeyed env sd w = .ok frame u) :
    Framed env w.st.key w.st.mac sd frame := by
  unfold sealIfKeyed at h
  simp only [look_bind, id_eq] at h
  split at h
  · obtain ⟨sealed, _, hsealed, h⟩ := bind_ok.mp h
    obtain ⟨key, hkey, rfl⟩ := sealUnder_ok hsealed
    obtain ⟨rfl, -⟩ := EStateM.Result.ok.inj h
    rw [hkey]
    exact ⟨w.st.advCounter, rfl⟩
  · rename_i hkey
    obtain ⟨rfl, -⟩ := EStateM.Result.ok.inj h
    rw [Option.not_isSome_iff_eq_none.mp hkey]
    rfl

/-! ## The readings -/

/-- No entry that is read, up to the first that throws, has moved. -/
def Unmoved (env : Env) (w : World) : Prop :=
  (readDue (env.reading (w.calls + 1)) (env.clock w.calls) w.st.plan.ordered).1.map Sensor.obj =
    w.st.plan.ordered.map Sensor.obj

theorem readSensor_obj {read : ℕ → Except JsError Obj} {now : ℤ} {it it' : Sensor} {moved : Bool}
    (h : readSensor read now it = (it', .ok moved)) : it'.obj = it.obj ↔ moved = false := by
  unfold readSensor at h
  cases hread : read it.entryIndex with
  | error x =>
      rw [hread] at h
      cases h
  | ok b =>
      rw [hread] at h
      dsimp only at h
      split at h
      · cases h
      · split at h
        · obtain ⟨rfl, hm⟩ := Prod.mk.inj h
          obtain rfl := Except.ok.inj hm
          exact iff_of_true rfl rfl
        · rename_i hvalue
          obtain ⟨rfl, hm⟩ := Prod.mk.inj h
          obtain rfl := Except.ok.inj hm
          refine iff_of_false ?_ (by simp)
          intro hobj
          exact hvalue (congrArg Obj.value hobj).symm

theorem length_readDue {read : ℕ → Except JsError Obj} {now : ℤ} (sensors : List Sensor) :
    (readDue read now sensors).1.length = sensors.length := by
  have hsame := map_readDue (g := fun _ => ()) (fun _ _ _ => rfl) read now sensors
  simpa using congrArg List.length hsame

/-- A pass that returns says whether anything moved. -/
theorem readDue_moved {read : ℕ → Except JsError Obj} {now : ℤ} {sensors : List Sensor}
    {moved : Bool} (h : (readDue read now sensors).2 = .ok moved) :
    (readDue read now sensors).1.map Sensor.obj = sensors.map Sensor.obj ↔ moved = false := by
  induction sensors generalizing moved with
  | nil =>
      obtain rfl := Except.ok.inj h
      exact iff_of_true rfl rfl
  | cons it rest ih =>
      unfold readDue at h ⊢
      by_cases hdue : it.readInterval ≠ 0 ∧ now - it.lastRead < it.readInterval
      · rw [if_pos hdue] at h ⊢
        rw [List.map_cons, List.map_cons, List.cons_inj_right]
        exact ih h
      rw [if_neg hdue] at h ⊢
      cases hread : readSensor read now it with
      | mk it' result =>
          rw [hread] at h
          cases result with
          | error x => cases h
          | ok first =>
              cases hrest : (readDue read now rest).2 with
              | error x =>
                  simp only [hrest] at h
                  cases h
              | ok later =>
                  simp only [hrest, Except.map] at h
                  obtain rfl := Except.ok.inj h
                  simp only [List.map_cons, List.cons.injEq, Bool.or_eq_false_iff]
                  exact and_congr (readSensor_obj hread) (ih hrest)

/-- A pass over the sensors captures readings and nothing else. -/
def Outlook.reread (o : Outlook) (readings : List Obj) : Outlook :=
  { o with picture := { o.picture with readings := readings } }

theorem Sound.reread {o : Outlook} (h : Sound env before o) {readings : List Obj}
    (hlength : readings.length = o.picture.readings.length) :
    Sound env before (o.reread readings) where
  whole :=
    { objs := by
        show o.picture.objs.Perm (slots readings.length o.picture.settingsRevision)
        rw [hlength]
        exact h.whole.objs
      revision := h.whole.revision }
  noted := h.noted

theorem outlook_renderedWorld (cached : Bool) (w : World) :
    outlook (renderedWorld env cached w) = (outlook w).reread
      ((renderReads (renderOf env cached w) w.st.plan.ordered).1.map Sensor.obj) := by
  unfold outlook Outlook.reread picture
  simp only [renderedWorld, World.setPlan, renderedPlan, Option.map_map]
  rfl

theorem outlook_left_rebuild (cached : Bool) (w : World) :
    outlook (left (rebuild env cached) w) = outlook (renderedWorld env cached w) := by
  cases h : rendered env cached w with
  | error x => rw [left_error (rebuild_of_error h)]
  | ok sd =>
      have hleft : left (rebuild env cached) w =
          left (sealIfKeyed env sd) (renderedWorld env cached w) :=
        left_congr (rebuild_of_ok h)
      rw [hleft]
      exact (outlook_sealKeeps.sealIfKeyed sd).left_eq _

theorem length_renderReads (r : Render) (sensors : List Sensor) :
    (renderReads r sensors).1.length = sensors.length := by
  unfold renderReads
  cases r.source with
  | none => rfl
  | some read => exact length_readDue sensors

theorem Sound.rebuild (h : Sound env before (outlook w)) (cached : Bool) :
    Sound env before (outlook (left (rebuild env cached) w)) := by
  rw [outlook_left_rebuild, outlook_renderedWorld]
  refine h.reread ?_
  simp [outlook, picture, length_renderReads]

/-- A packet that was built shows what it was built from. -/
theorem shownBy_rebuild {cached : Bool} {sd : Bytes} (h : rebuild env cached w = .ok sd u) :
    (picture u.st).ShownBy env sd := by
  have hpicture : picture u.st = picture (renderedWorld env cached w).st :=
    congrArg Outlook.picture (left_ok h ▸ outlook_left_rebuild cached w)
  cases hrendered : rendered env cached w with
  | error x =>
      rw [rebuild_of_error hrendered] at h
      cases h
  | ok plain =>
      obtain ⟨pid, rfl⟩ := bytes_of_rendered hrendered
      rw [rebuild_of_ok hrendered] at h
      rw [hpicture]
      exact ⟨pid, sealIfKeyed_ok h⟩

/-- Building a packet of readings that have not moved changes nothing that shows. -/
theorem outlook_rebuild_unmoved {cached : Bool} (h : cached = true ∨ Unmoved env w) :
    outlook (left (rebuild env cached) w) = outlook w := by
  have hreadings : (renderReads (renderOf env cached w) w.st.plan.ordered).1.map Sensor.obj =
      w.st.plan.ordered.map Sensor.obj := by
    cases cached with
    | true => rfl
    | false => exact h.resolve_left (by simp)
  rw [outlook_left_rebuild, outlook_renderedWorld, hreadings]
  rfl

/-! ## Publishing it -/

/-- The radio accepts `sd`. -/
def Accepts (env : Env) (sd : Bytes) (w : World) : Prop :=
  env.throws w.calls (.setAdvertising sd (advOptions w.st)) = none

/-- The plan has nothing but the packet id to send, so the fallback is the whole packet. -/
def Bare (p : Plan) : Prop := p.objs = [.pkt] ∧ p.decl = none

/-- The smallest valid packet. -/
def fallback (w : World) : Bytes :=
  [w.st.plan.info, PKT_ID, UInt8.ofNat (w.st.packetId % 256)]

/-- What the radio has left once it refused `sd`. -/
def refused (sd : Bytes) (w : World) : World := w.asked.hand sd (advOptions w.st) false

/-- The radio refuses `sd` and takes the fallback, which does not say all there is to say. -/
def Displaces (env : Env) (sd : Bytes) (w : World) : Prop :=
  ¬ Accepts env sd w ∧ ¬ Bare w.st.plan ∧
    ∃ small u, sealIfKeyed env (fallback w) (refused sd w) = .ok small u ∧
      env.throws u.calls (.setAdvertising small { advOptions w.st with showName := false }) = none

theorem setAdvertising_of_none {sd : Bytes} {opts : AdvOptions}
    (h : env.throws w.calls (.setAdvertising sd opts) = none) :
    setAdvertising env sd opts w = .ok () (w.asked.hand sd opts true) := by
  simp only [setAdvertising, h]

theorem setAdvertising_of_some {sd : Bytes} {opts : AdvOptions} {f : Foreign}
    (h : env.throws w.calls (.setAdvertising sd opts) = some f) :
    setAdvertising env sd opts w = .error f.error (w.asked.hand sd opts false) := by
  simp only [setAdvertising, h]

theorem publish_of_accepts {sd : Bytes} (h : Accepts env sd w) :
    publish env sd w = .ok () ((w.asked.hand sd (advOptions w.st) true).onAir sd) := by
  unfold publish
  simp only [look_bind, id_eq]
  refine attempt_of_ok ?_
  rw [bind_of_ok (setAdvertising_of_none h)]
  rfl

theorem publish_of_refused {sd : Bytes} {f : Foreign}
    (h : env.throws w.calls (.setAdvertising sd (advOptions w.st)) = some f) :
    publish env sd w = publishFallback env sd (advOptions w.st) f.error (refused sd w) := by
  unfold publish
  simp only [look_bind, id_eq]
  exact attempt_of_error (bind_of_error (setAdvertising_of_some h))

/-- A fallback that the radio takes is no end of `publish` either. -/
theorem publish_ok {sd : Bytes} (h : publish env sd w = .ok () u) :
    Accepts env sd w ∧ u = (w.asked.hand sd (advOptions w.st) true).onAir sd := by
  cases hradio : env.throws w.calls (.setAdvertising sd (advOptions w.st)) with
  | none =>
      rw [publish_of_accepts hradio] at h
      obtain ⟨-, rfl⟩ := EStateM.Result.ok.inj h
      exact ⟨hradio, rfl⟩
  | some f =>
      rw [publish_of_refused hradio] at h
      unfold publishFallback at h
      simp only [look_bind] at h
      obtain ⟨_, _, -, h⟩ := bind_ok.mp h
      obtain ⟨_, _, -, h⟩ := bind_ok.mp h
      cases h

/-- What `publish` leaves: the radio has taken the packet, or refused it; after that sealing the
fallback has thrown, or the radio has taken that, or refused it too. -/
theorem left_publish {I : World → Prop} {sd : Bytes}
    (htaken : Accepts env sd w → I ((w.asked.hand sd (advOptions w.st) true).onAir sd))
    (hrefused : ¬ Accepts env sd w → I (left (sealIfKeyed env (fallback w)) (refused sd w)))
    (hagain : ∀ small u, ¬ Accepts env sd w →
      sealIfKeyed env (fallback w) (refused sd w) = .ok small u → I u →
      env.throws u.calls (.setAdvertising small { advOptions w.st with showName := false }) = none →
      I ((u.asked.hand small { advOptions w.st with showName := false } true).onAir small))
    (hboth : ∀ small u, sealIfKeyed env (fallback w) (refused sd w) = .ok small u → I u →
      I (u.asked.hand small { advOptions w.st with showName := false } false).dropLastSd) :
    I (left (publish env sd) w) := by
  cases hradio : env.throws w.calls (.setAdvertising sd (advOptions w.st)) with
  | none =>
      rw [left_ok (publish_of_accepts hradio)]
      exact htaken hradio
  | some f =>
      have hnot : ¬ Accepts env sd w := by simp [Accepts, hradio]
      rw [left_congr (publish_of_refused hradio)]
      unfold publishFallback
      rw [left_congr (look_bind _ _ _)]
      refine left_bind (hrefused hnot) fun small u hsealed hu => ?_
      rw [left_bind_throw]
      cases htakes : env.throws u.calls
          (.setAdvertising small { advOptions w.st with showName := false }) with
      | none =>
          have hput : (do
              setAdvertising env small { advOptions w.st with showName := false }
              update (World.onAir · small)
              pure "" : Fw String) u = .ok ""
                ((u.asked.hand small { advOptions w.st with showName := false } true).onAir
                  small) :=
            bind_of_ok (setAdvertising_of_none htakes)
          rw [left_ok (attempt_of_ok hput)]
          exact hagain small u hnot hsealed hu htakes
      | some f2 =>
          rw [left_congr (attempt_of_error (bind_of_error (setAdvertising_of_some htakes)))]
          exact hboth small u hsealed hu

theorem shownBy_fallback {sd small : Bytes} (hbare : Bare w.st.plan)
    (h : sealIfKeyed env (fallback w) (refused sd w) = .ok small u) :
    (picture w.st).ShownBy env small := by
  refine ⟨UInt8.ofNat (w.st.packetId % 256), ?_⟩
  have hbytes : (picture w.st).bytes (UInt8.ofNat (w.st.packetId % 256)) = fallback w := by
    unfold Picture.bytes
    simp only [picture, hbare.1, hbare.2]
    rfl
  rw [hbytes]
  exact sealIfKeyed_ok (w := refused sd w) h

/-- Unless the fallback takes its place, the packet on the air still says all there is to say. -/
theorem InSync.publish {sd : Bytes} (h : InSync env before (outlook w))
    (hshown : (picture w.st).ShownBy env sd) (hstays : ¬ Displaces env sd w) :
    InSync env before (outlook (left (publish env sd) w)) := by
  have hsynced : ∀ u, outlook u = outlook w → InSync env before (outlook u) := by
    intro u hu
    rw [hu]
    exact h
  refine left_publish (I := fun u => InSync env before (outlook u)) (fun _ => ?_) (fun _ => ?_)
    ?_ ?_
  · exact h.toSound.onAir hshown
  · exact hsynced _ ((outlook_sealKeeps.sealIfKeyed _).left_eq (refused sd w))
  · intro small u hnot hsealed hu htakes
    -- the fallback is on the air, and must have been the whole packet
    have hbare : Bare w.st.plan := by
      by_contra hmore
      exact hstays ⟨hnot, hmore, small, u, hsealed, htakes⟩
    have hpicture : picture u.st = picture w.st :=
      congrArg Outlook.picture ((outlook_sealKeeps.sealIfKeyed _).ok (s := refused sd w) hsealed)
    refine Sound.onAir (w := u.asked.hand _ _ _) hu.toSound ?_
    show (picture u.st).ShownBy env small
    rw [hpicture]
    exact shownBy_fallback hbare hsealed
  · intro small u _ hu
    exact { hu with cached := by rintro _ ⟨⟩ }

/-! ## Refreshing -/

/-- A packet is built, and the radio accepts it. -/
def Renews (env : Env) (cached : Bool) (w : World) : Prop :=
  ∃ sd u, rebuild env cached w = .ok sd u ∧ Accepts env sd u

/-- Either a packet with all there is to say reaches the radio, or nothing has moved that it would
have to say and no fallback takes its place. -/
def RefreshLossless (env : Env) (w : World) : Prop :=
  Renews env false w ∨
    (Unmoved env w ∧ ∀ sd u, rebuild env false w = .ok sd u → ¬ Displaces env sd u)

/-- A refresh that returns has brought the air up to date. -/
theorem Sound.refreshed {cached : Bool} (h : Sound env before (outlook w))
    (hrun : refreshAdvertising env cached w = .ok () u) : InSync env before (outlook u) := by
  obtain ⟨sd, v, hbuilt, hput⟩ := bind_ok.mp hrun
  obtain ⟨-, rfl⟩ := publish_ok hput
  exact (left_ok hbuilt ▸ h.rebuild cached).onAir (shownBy_rebuild hbuilt)

theorem Renews.returns {cached : Bool} (h : Renews env cached w) :
    Returns (refreshAdvertising env cached) w := by
  obtain ⟨sd, v, hbuilt, haccepts⟩ := h
  exact ⟨(), _, (bind_of_ok hbuilt).trans (publish_of_accepts haccepts)⟩

theorem Sound.renewed {cached : Bool} (h : Sound env before (outlook w))
    (hrenews : Renews env cached w) :
    InSync env before (outlook (left (refreshAdvertising env cached) w)) := by
  obtain ⟨⟨⟩, v, hrun⟩ := hrenews.returns
  rw [left_ok hrun]
  exact h.refreshed hrun

theorem InSync.refresh (h : InSync env before (outlook w)) (hlossless : RefreshLossless env w) :
    InSync env before (outlook (left (refreshAdvertising env false) w)) := by
  obtain hrenews | ⟨hunmoved, hstays⟩ := hlossless
  · exact h.toSound.renewed hrenews
  have hkept : outlook (left (rebuild env false) w) = outlook w :=
    outlook_rebuild_unmoved (Or.inr hunmoved)
  refine left_bind (I := fun u => InSync env before (outlook u)) ?_ ?_
  · rw [hkept]
    exact h
  · intro sd t hbuilt ht
    exact ht.publish (shownBy_rebuild hbuilt) (hstays sd t hbuilt)

/-- What a change of the rate publishes is not replaced by a fallback. -/
def RateLossless (env : Env) (w : World) : Prop :=
  (w.st.lastSd = none → RefreshLossless env w) ∧
    ∀ sd, w.st.lastSd = some sd → ¬ Displaces env sd w

theorem InSync.republishRate (h : InSync env before (outlook w))
    (hlossless : RateLossless env w) :
    InSync env before (outlook (left (republishRate env) w)) := by
  refine left_bind (I := fun u => InSync env before (outlook u)) h ?_
  rintro _ _ ⟨⟩ -
  cases hlast : w.st.lastSd with
  | none =>
      simp only [id_eq, hlast]
      exact h.refresh (hlossless.1 hlast)
  | some sd =>
      simp only [id_eq, hlast]
      exact h.publish (h.cached sd hlast) (hlossless.2 sd hlast)

/-! ## Waking -/

/-- The device once the sensors have been read, as far as that went. -/
def passed (env : Env) (w : World) : World :=
  w.asked.asked.setOrdered
    (readDue (env.reading (w.calls + 1)) (env.clock w.calls) w.st.plan.ordered).1

theorem readSensors_of_ok {moved : Bool}
    (h : (readDue (env.reading (w.calls + 1)) (env.clock w.calls) w.st.plan.ordered).2 =
      .ok moved) : readSensors env w = .ok moved (passed env w) := by
  unfold readSensors
  rw [bind_of_ok (show getTime env w = .ok (env.clock w.calls) w.asked from rfl)]
  refine (bind_of_ok (a := Except.ok moved) (t := passed env w) ?_).trans rfl
  unfold readPass
  rw [← h]
  rfl

theorem readSensors_of_error {x : JsError}
    (h : (readDue (env.reading (w.calls + 1)) (env.clock w.calls) w.st.plan.ordered).2 =
      .error x) : readSensors env w = .error x (passed env w) := by
  unfold readSensors
  rw [bind_of_ok (show getTime env w = .ok (env.clock w.calls) w.asked from rfl)]
  refine (bind_of_ok (a := Except.error x) (t := passed env w) ?_).trans rfl
  unfold readPass
  rw [← h]
  rfl

/-- Nothing that is read has moved before a throw; or all that is due is read, and what has moved
reaches the radio. -/
def TickLossless (env : Env) (w : World) : Prop :=
  Unmoved env w ∨ ∃ u, readSensors env w = .ok true u ∧ Renews env true u

theorem Sound.passed (h : Sound env before (outlook w)) :
    Sound env before (outlook (passed env w)) := by
  have hlength : ((readDue (env.reading (w.calls + 1)) (env.clock w.calls)
      w.st.plan.ordered).1.map Sensor.obj).length = (outlook w).picture.readings.length := by
    simp [outlook, picture, length_readDue]
  exact h.reread hlength

/-- A pass that captures nothing new leaves nothing to be sent. -/
theorem outlook_passed (h : Unmoved env w) : outlook (passed env w) = outlook w :=
  outlook_setOrdered (w := w.asked.asked) h

/-- From where the air is up to date, the rest of a `tick`, an `update` or a `publishChange`. -/
theorem InSync.finish {α : Type} {k : Unit → Fw α} (h : InSync env before (outlook w))
    (hk : ∀ t, left (k ()) t = t.noteReturn) :
    InSync env before (outlook (left (schedule env >>= k) w)) := by
  refine left_bind (I := fun u => InSync env before (outlook u)) ?_ ?_
  · rw [outlook_scheduleKeeps.schedule.left_eq w]
    exact h
  · intro _ t _ ht
    rw [hk]
    exact ht.noteReturn

/-- The second half of `tick`. -/
theorem InSync.publishMoved {moved : Bool} (hsound : Sound env before (outlook w))
    (h : moved = false → InSync env before (outlook w))
    (hrenews : moved = true → Renews env true w) :
    InSync env before (outlook (left (doIf moved (refreshAdvertising env true)) w)) := by
  cases moved with
  | false => exact h rfl
  | true => exact hsound.renewed (hrenews rfl)

theorem InSync.tick (h : InSync env before (outlook w)) (hlossless : TickLossless env w) :
    InSync env before (outlook (left (tick env) w)) := by
  cases hdue : (readDue (env.reading (w.calls + 1)) (env.clock w.calls) w.st.plan.ordered).2 with
  | error x =>
      have hthrew := readSensors_of_error hdue
      have hunmoved : Unmoved env w := by
        refine hlossless.resolve_right ?_
        rintro ⟨u, hread, -⟩
        rw [hthrew] at hread
        cases hread
      have hleft : left (Firmware.tick env) w = passed env w := left_error (bind_of_error hthrew)
      rw [hleft, outlook_passed hunmoved]
      exact h
  | ok moved =>
      have hread := readSensors_of_ok hdue
      have hmoved : Unmoved env w ↔ moved = false := readDue_moved hdue
      have hmid : InSync env before
          (outlook (left (doIf moved (refreshAdvertising env true)) (passed env w))) := by
        refine InSync.publishMoved h.toSound.passed ?_ ?_
        · intro hstill
          rw [outlook_passed (hmoved.mpr hstill)]
          exact h
        · rintro rfl
          have hnot : ¬ Unmoved env w := fun hunmoved => absurd (hmoved.mp hunmoved) (by simp)
          obtain ⟨u, hu, hrenews⟩ := hlossless.resolve_left hnot
          rw [hread] at hu
          obtain ⟨-, rfl⟩ := EStateM.Result.ok.inj hu
          exact hrenews
      unfold Firmware.tick
      rw [left_bind_of_ok hread]
      refine left_bind (I := fun u => InSync env before (outlook u)) hmid ?_
      intro _ t _ ht
      exact ht.finish fun _ => rfl

end BTHomeWritable.Firmware
