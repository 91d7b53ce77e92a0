import BTHomeWritable.Firmware.Changes
import BTHomeWritable.Firmware.Packets
import BTHomeWritable.Firmware.SetupErrors

/-!
# What the characteristics hold

From a `setup()` on, the characteristic of a readable entry holds a reading of
the entry that was taken since then, or what a central has written there last.
Readings are published by `setup()`, by the callbacks that a write leaves
pending, and at the end of a window; whatever else goes on, and whatever throws,
leaves the characteristics alone.

* `Stands` says of one entry which of the two it holds, and `Serving` says it of
  all of them, with the callbacks that are pending.
* `Stays` is what most programs do: nothing is published or left pending.
* A program `Tends` the entries it is about where it keeps `Serving` and they stay
  in the plan; writes and publishing have this much (`tends_onWrite`,
  `tends_publishReads`).

`Serving.react` is the step, and `serving_setup` starts it at a `setup()`, whose
own readings are the first to be held.
-/

namespace BTHomeWritable.Firmware

open Device Throwing

variable {env : Env} {w u : World} {writable : Writable} {since floor : ℕ}
  {Wrote : ℕ → Bytes → Prop}

/-! ## Held values -/

/-- What the characteristic of a readable entry holds. -/
inductive Stands (env : Env) (Wrote : ℕ → Bytes → Prop) (since : ℕ) (w : World)
    (writable : Writable) : Prop
  | read (n : ℕ) (bytes : Bytes) (hfrom : since ≤ n) (hto : n < w.calls)
      (hheld : w.held writable.entry = .served writable bytes)
      (hreading : Reading env w.st n writable bytes)
  | written (data : Bytes) (hheld : w.held writable.entry = .written data)
      (hwrote : Wrote writable.entry data)

/-- That, for every readable entry; there have been at least `floor` calls, and at least `since`
of them before the readings. -/
structure Serving (env : Env) (Wrote : ℕ → Bytes → Prop) (since floor : ℕ) (w : World) : Prop where
  early : since ≤ floor
  later : floor ≤ w.calls
  numbered : Numbered w.st.plan.writable
  stands : ∀ writable ∈ w.st.plan.writable, writable.readable = true →
    Stands env Wrote since w writable
  pending : ∀ writable, .publishRead writable ∈ w.deferred →
    writable ∈ w.st.plan.writable ∧ writable.readable = true

/-- What has to stay for the held values to stay what they are. -/
structure Stock where
  source : List Entry × Option Bytes × Bytes
  writable : List Writable
  held : ℕ → Held
  deferred : List Deferred

def stock (w : World) : Stock where
  source := source w
  writable := w.st.plan.writable
  held := w.held
  deferred := w.deferred

/-- Nothing is published or left pending on the way from `w` to `w'`. -/
def Stays (w w' : World) : Prop := stock w' = stock w ∧ w.calls ≤ w'.calls

instance : IsPreorder World Stays where
  refl _ := ⟨rfl, le_rfl⟩
  trans _ _ _ h h' := ⟨h'.1.trans h.1, h.2.trans h'.2⟩

theorem Stands.congr (h : Stands env Wrote since w writable) (hsource : source u = source w)
    (hheld : u.held writable.entry = w.held writable.entry) (hlater : w.calls ≤ u.calls) :
    Stands env Wrote since u writable := by
  cases h with
  | read n bytes hfrom hto hserved hreading =>
      exact .read n bytes hfrom (hto.trans_le hlater) (hheld.trans hserved)
        (hreading.congr hsource.symm)
  | written data hwritten hwrote => exact .written data (hheld.trans hwritten) hwrote

theorem Serving.stays (h : Serving env Wrote since floor w) (hstays : Stays w u) :
    Serving env Wrote since floor u := by
  obtain ⟨hstock, hlater⟩ := hstays
  have hsource : source u = source w := congrArg Stock.source hstock
  have hwritable : u.st.plan.writable = w.st.plan.writable := congrArg Stock.writable hstock
  have hheld : u.held = w.held := congrArg Stock.held hstock
  have hdeferred : u.deferred = w.deferred := congrArg Stock.deferred hstock
  refine ⟨h.early, h.later.trans hlater, hwritable ▸ h.numbered, ?_, ?_⟩
  · intro writable hmem hreadable
    rw [hwritable] at hmem
    exact (h.stands writable hmem hreadable).congr hsource (by rw [hheld]) hlater
  · intro writable hmem
    rw [hdeferred] at hmem
    rw [hwritable]
    exact h.pending writable hmem

/-! ## What stays -/

theorem stays_of_eq (hstock : stock u = stock w) (hcalls : u.calls = w.calls) : Stays w u :=
  ⟨hstock, hcalls.ge⟩

theorem stays_asked (w : World) : Stays w w.asked := ⟨rfl, Nat.le_succ _⟩

theorem stays_sealMoves : SealMoves Stays where
  asked := stays_asked
  bumpAdvCounter _ := stays_of_eq rfl rfl
  advMark _ _ := stays_of_eq rfl rfl
  writeJSON _ := stays_of_eq rfl rfl

theorem stays_tickMoves : TickMoves env Stays where
  toSeals := stays_sealMoves.seals
  hand _ _ _ _ := stays_of_eq rfl rfl
  onAir _ _ := stays_of_eq rfl rfl
  dropLastSd _ := stays_of_eq rfl rfl
  bumpPacketId _ := stays_of_eq rfl rfl
  render w r := by
    refine ⟨?_, Nat.le_succ _⟩
    unfold stock
    congr 1
    exact (writable_eventKeeps).render w r
  clearTimer w := by
    unfold World.clearTimer
    split <;> exact stays_of_eq rfl rfl
  settle _ _ _ := stays_of_eq rfl rfl
  setTimer _ _ := stays_of_eq rfl rfl
  read _ _ _ := ⟨rfl, Nat.le_succ _⟩
  noteReturn _ := stays_of_eq rfl rfl

/-- What is kept together with the count of the calls. -/
def stocked (w : World) : Stock × ℕ := (stock w, w.calls)

theorem stays_of_keeps {α : Type} {p : Fw α} (h : Frame (Keeps stocked) p) : Frame Stays p :=
  h.mono fun _ _ hkeeps => stays_of_eq (Prod.mk.inj hkeeps).1 (Prod.mk.inj hkeeps).2

theorem stocked_rateKeeps : RateKeeps stocked where

theorem stays_refresh (cached : Bool) : Frame Stays (refreshAdvertising env cached) :=
  stays_tickMoves.refreshAdvertising cached

theorem stays_republishRate : Frame Stays (republishRate env) := stays_tickMoves.republishRate

theorem stays_schedule : Frame Stays (schedule env) := by
  have hmoves : TickMoves env Stays := stays_tickMoves
  exact hmoves.toScheduleMoves.schedule

theorem stays_tick : Frame Stays (tick env) := stays_tickMoves.tick

theorem stays_reaction : Frame Stays (reaction env) :=
  frame_reaction (stays_of_keeps stocked_rateKeeps.goFast) stays_tick stays_republishRate

theorem stays_report (e : JsError) : Frame Stays (report env e) := frame_report stays_asked e

theorem stays_guarded {p : Fw Unit} (h : Frame Stays p) : Frame Stays (guarded env p) :=
  Frame.attempt h stays_report

theorem stays_reject (e : JsError) : Frame Stays (reject env e) := by
  refine Frame.bind (Frame.update fun w => ?_) fun _ => stays_report e
  unfold World.countReject
  split <;> exact stays_of_eq rfl rfl

theorem stays_refreshAndSchedule : Frame Stays (do
    refreshAdvertising env false
    schedule env
    update World.noteReturn) :=
  Frame.bind (stays_refresh false) fun _ =>
    Frame.bind stays_schedule fun _ => Frame.update fun _ => stays_of_eq rfl rfl

/-! ## Writes -/

theorem stays_openWrite (pl : Bytes) : Frame Stays (openWrite env pl) := by
  have hrefuse : ∀ e : JsError,
      Frame Stays (do reject env e; pure none : Fw (Option Bytes)) := fun e =>
    Frame.bind (stays_reject e) fun _ => Frame.pure none
  refine Frame.bind (Frame.look id) fun w => ?_
  split
  · exact hrefuse _
  · dsimp only
    split
    · exact hrefuse _
    · refine Frame.bind (frame_ask stays_asked _) fun _ => ?_
      split
      · exact hrefuse _
      · refine Frame.bind ?_ fun _ => Frame.pure _
        refine Frame.bind (Frame.look id) fun w => ?_
        refine Frame.bind (Frame.update fun _ => stays_of_eq rfl rfl) fun _ => Frame.doIf ?_
        exact Frame.bind (Frame.update fun _ => stays_of_eq rfl rfl) fun _ =>
          stays_sealMoves.saveMarks

theorem stays_applyWrite (writable : Writable) (pl : Bytes) :
    Frame Stays (applyWrite env writable pl) := by
  refine Frame.bind (Frame.look id) fun w => ?_
  split
  · exact Frame.pure _
  · split
    · exact Frame.pure _
    · intro u
      unfold left callSet
      cases env.set u.calls writable.entryIndex _ <;> exact ⟨rfl, Nat.le_succ _⟩

/-- The held values are what they should be, and the entries `ws` are in the plan. -/
def Keeping (env : Env) (Wrote : ℕ → Bytes → Prop) (since floor : ℕ) (ws : List Writable)
    (w : World) : Prop :=
  Serving env Wrote since floor w ∧ ∀ writable ∈ ws, writable ∈ w.st.plan.writable

/-- `p` keeps them so, however it ends. -/
abbrev Tends (env : Env) (Wrote : ℕ → Bytes → Prop) (since floor : ℕ) (ws : List Writable)
    {α : Type} (p : Fw α) : Prop :=
  Frame (Upholds (Keeping env Wrote since floor ws)) p

variable {ws : List Writable}

theorem tends_of_stays {α : Type} {p : Fw α} (h : Frame Stays p) :
    Tends env Wrote since floor ws p := by
  refine h.mono fun w u hstays hw => ⟨hw.1.stays hstays, ?_⟩
  rw [show u.st.plan.writable = w.st.plan.writable from congrArg Stock.writable hstays.1]
  exact hw.2

theorem Serving.keeping (h : Serving env Wrote since floor w) :
    Keeping env Wrote since floor [] w :=
  ⟨h, fun _ hmem => absurd hmem List.not_mem_nil⟩

theorem Serving.after {α : Type} {p : Fw α} (h : Serving env Wrote since floor w)
    (hp : Tends env Wrote since floor [] p) : Serving env Wrote since floor (left p w) :=
  (hp w h.keeping).1

theorem Serving.deferRead (h : Serving env Wrote since floor w)
    (hmem : writable ∈ w.st.plan.writable) :
    Serving env Wrote since floor (deferRead writable w) := by
  unfold Firmware.deferRead
  split
  · rename_i hreadable
    refine ⟨h.early, h.later, h.numbered, fun other hother hread => ?_, fun other hother => ?_⟩
    · exact (h.stands other hother hread).congr rfl rfl le_rfl
    · rcases List.mem_append.mp hother with hold | hnew
      · exact h.pending other hold
      · obtain rfl := Deferred.publishRead.inj (List.mem_singleton.mp hnew)
        exact ⟨hmem, hreadable⟩
  · exact h

/-- A callback is left pending only for an entry of the plan. -/
theorem tends_handleWrite (k : ℕ) (pl : Bytes) :
    Tends env Wrote since floor [] (handleWrite env k pl) := by
  intro w h
  cases hentry : w.st.plan.writable[k - 1]? with
  | none =>
      unfold handleWrite
      simp only [Throwing.left, look_bind, id_eq, hentry]
      exact tends_of_stays (stays_reject _) w h
  | some writable =>
      obtain ⟨refused, u, happly, -⟩ := applyWrite_returns env writable pl w
      have hstays : Stays w u := (stays_applyWrite writable pl).ok happly
      have hmem : writable ∈ u.st.plan.writable := by
        rw [show u.st.plan.writable = w.st.plan.writable from congrArg Stock.writable hstays.1]
        exact List.mem_of_getElem? hentry
      have hdeferred : Serving env Wrote since floor (deferRead writable u) :=
        (h.1.stays hstays).deferRead hmem
      rw [left_congr (handleWrite_of_applied hentry happly)]
      cases refused with
      | some e => exact (hdeferred.stays (stays_reject e _)).keeping
      | none => exact (hdeferred.stays (stays_guarded stays_reaction _)).keeping

theorem tends_onWrite (k : ℕ) (data : Bytes) :
    Tends env Wrote since floor [] (onWrite env k data) := by
  refine Frame.bind (Frame.look id) fun w => ?_
  split
  · refine Frame.bind (tends_of_stays (stays_openWrite data)) fun opened => ?_
    cases opened with
    | none => exact Frame.pure ()
    | some pl => exact tends_handleWrite k pl
  · exact tends_handleWrite k data

/-- The stack stores what was written, over whatever was there. -/
theorem Serving.store (h : Serving env Wrote since floor w) {k : ℕ} {data : Bytes}
    (hwrote : Wrote k data) : Serving env Wrote since floor (w.store k data) := by
  refine ⟨h.early, h.later, h.numbered, fun writable hmem hreadable => ?_, h.pending⟩
  by_cases hk : writable.entry = k
  · subst hk
    exact .written data (Function.update_self _ _ _) hwrote
  · exact (h.stands writable hmem hreadable).congr rfl (Function.update_of_ne hk _ _) le_rfl

/-! ## Publishing readings -/

/-- What throws on the way to the characteristic leaves it alone. -/
theorem stays_of_publishRead_error {e : JsError} (h : publishRead env writable w = .error e u) :
    Stays w u := by
  rcases bind_error.mp h with h | ⟨value, v, hvalue, h⟩
  · exact (stays_sealMoves.seals.readValue writable).error h
  · have hread : Stays w v := (stays_sealMoves.seals.readValue writable).ok hvalue
    rcases bind_error.mp h with h | ⟨_, _, -, h⟩
    · exact trans_of Stays hread ((frame_ask stays_asked _).error h)
    · cases h

/-- What a publication leaves alone. -/
theorem served_of_publishRead (h : publishRead env writable w = .ok () u) :
    source u = source w ∧ u.st.plan.writable = w.st.plan.writable ∧ u.deferred = w.deferred ∧
      ∀ k, k ≠ writable.entry → u.held k = w.held k := by
  have hkeeps : ServeKeeps fun w : World => (source w, w.st.plan.writable, w.deferred) := {}
  have hkept := (hkeeps.publishRead writable).ok h
  obtain ⟨hsource, hrest⟩ := Prod.mk.inj hkept
  obtain ⟨hwritable, hdeferred⟩ := Prod.mk.inj hrest
  refine ⟨hsource, hwritable, hdeferred, fun k hk => ?_⟩
  have hsealed : SealKeeps fun w : World => w.held k := {}
  refine (hsealed.moves.seals.publishRead fun v bytes => ?_).ok h
  exact Function.update_of_ne hk _ _

theorem tends_publishRead (hmem : writable ∈ ws) (hreadable : writable.readable = true) :
    Tends env Wrote since floor ws (publishRead env writable) := by
  intro w hw
  cases hrun : publishRead env writable w with
  | error e u =>
      have hstays := stays_of_publishRead_error hrun
      rw [left_error hrun]
      refine ⟨hw.1.stays hstays, ?_⟩
      rw [show u.st.plan.writable = w.st.plan.writable from congrArg Stock.writable hstays.1]
      exact hw.2
  | ok a u =>
      rw [left_ok hrun]
      obtain ⟨hsource, hwritable, hdeferred, hothers⟩ := served_of_publishRead hrun
      obtain ⟨n, bytes, hfrom, hto, hheld, hreading⟩ := republished_publishRead hrun
      have hlater : w.calls ≤ u.calls := hfrom.trans hto.le
      obtain ⟨h, hws⟩ := hw
      rw [← hwritable] at hws
      refine ⟨⟨h.early, h.later.trans hlater, hwritable ▸ h.numbered,
        fun other hother hread => ?_, ?_⟩, hws⟩
      · rw [hwritable] at hother
        by_cases hentry : other.entry = writable.entry
        · have hsame : other = writable := by
            have hat := h.numbered.getElem? hother
            rw [hentry, h.numbered.getElem? (hwritable ▸ hws writable hmem)] at hat
            exact (Option.some.inj hat).symm
          subst hsame
          exact .read n bytes (h.early.trans (h.later.trans hfrom)) hto hheld
            (hreading.congr hsource.symm)
        · exact (h.stands other hother hread).congr hsource (hothers _ hentry) hlater
      · intro other hother
        rw [hdeferred] at hother
        rw [hwritable]
        exact h.pending other hother

theorem tends_publishReads {rest : List Writable} (hrest : ∀ writable ∈ rest, writable ∈ ws) :
    Tends env Wrote since floor ws (publishReads env rest) := by
  induction rest with
  | nil => exact Frame.pure ()
  | cons writable rest ih =>
      refine Frame.bind ?_ fun _ =>
        ih fun other hother => hrest other (List.mem_cons_of_mem _ hother)
      by_cases hreadable : writable.readable = true
      · rw [doIf, if_pos hreadable]
        exact tends_publishRead (hrest writable List.mem_cons_self) hreadable
      · rw [doIf, if_neg hreadable]
        exact Frame.pure ()

theorem tends_guarded {p : Fw Unit} (h : Tends env Wrote since floor ws p) :
    Tends env Wrote since floor ws (guarded env p) :=
  Frame.attempt h fun e => tends_of_stays (stays_report e)

/-! ## Events -/

theorem tends_publishChange : Tends env Wrote since floor [] (publishChange env) := by
  have hcount : Frame Stays (do
      update fun w => { w with st := { w.st with changeTimer := none } }
      update World.bumpRevision : Fw Unit) :=
    Frame.bind (Frame.update fun _ => stays_of_eq rfl rfl) fun _ =>
      Frame.update fun _ => stays_of_eq rfl rfl
  intro w h
  have hcounted : Serving env Wrote since floor (left (do
      update fun w => { w with st := { w.st with changeTimer := none } }
      update World.bumpRevision : Fw Unit) w) := h.1.stays (hcount w)
  have hread : Tends env Wrote since floor w.st.plan.writable (do
      publishReads env w.st.plan.writable
      refreshAdvertising env false
      schedule env
      update World.noteReturn) :=
    Frame.bind (tends_publishReads fun _ hmem => hmem) fun _ =>
      tends_of_stays stays_refreshAndSchedule
  exact (hread _ ⟨hcounted, fun _ hmem => hmem⟩).1.keeping

theorem tends_runJob (job : Job) : Tends env Wrote since floor [] (runJob env job) := by
  cases job with
  | wake =>
      refine tends_of_stays (Frame.attempt ?_ fun e => ?_)
      · exact Frame.bind stays_tick fun _ => Frame.pure ()
      exact Frame.bind (stays_report e) fun _ => Frame.update fun _ => stays_of_eq rfl rfl
  | goIdle =>
      refine tends_of_stays (Frame.bind (Frame.update fun _ => ?_) fun _ => stays_republishRate)
      exact stays_of_eq rfl rfl
  | publishChange => exact tends_guarded tends_publishChange

theorem stays_setAdvertisingInterval (ms : ℤ) : Frame Stays (setAdvertisingInterval env ms) := by
  unfold setAdvertisingInterval
  split
  · exact Frame.throw _
  · refine Frame.bind (Frame.update fun _ => stays_of_eq rfl rfl) fun _ => ?_
    refine Frame.bind (Frame.update fun _ => stays_of_eq rfl rfl) fun _ => ?_
    refine Frame.bind stays_schedule fun _ => Frame.bind (Frame.look id) fun w => ?_
    refine Frame.bind (Frame.doIf ?_) fun _ => Frame.pure _
    exact Frame.bind (Frame.update fun _ => stays_of_eq rfl rfl) fun _ => stays_republishRate

theorem tends_runDeferred {d : Deferred} (hd : ∀ writable, d = .publishRead writable →
    writable ∈ ws ∧ writable.readable = true) :
    Tends env Wrote since floor ws (runDeferred env d) := by
  cases d with
  | publishRead writable =>
      exact tends_guarded (tends_publishRead (hd writable rfl).1 (hd writable rfl).2)
  | counterReport challenge =>
      refine tends_of_stays (Frame.attempt ?_ fun e => stays_report _)
      refine Frame.bind (Frame.look id) fun w => ?_
      refine Frame.bind (stays_sealMoves.sealUnder _ _) fun value => ?_
      exact Frame.bind (frame_ask stays_asked _) fun _ => Frame.update fun _ => stays_of_eq rfl rfl

theorem Keeping.runAll {ds : List Deferred} (h : Keeping env Wrote since floor ws w)
    (hds : ∀ writable, .publishRead writable ∈ ds → writable ∈ ws ∧ writable.readable = true) :
    Keeping env Wrote since floor ws (runAll env ds w) := by
  induction ds generalizing w with
  | nil => exact h
  | cons d rest ih =>
      refine ih (tends_runDeferred ?_ w h) fun writable hmem =>
        hds writable (List.mem_cons_of_mem _ hmem)
      rintro writable rfl
      exact hds writable List.mem_cons_self

/-- The pending callbacks are those of entries of the plan, which stays what it is. -/
theorem Serving.turn (h : Serving env Wrote since floor w) :
    Serving env Wrote since floor (turn env w) := by
  have hemptied : Keeping env Wrote since floor w.st.plan.writable { w with deferred := [] } := by
    refine ⟨⟨h.early, h.later, h.numbered, fun writable hmem hreadable => ?_, fun _ hmem => ?_⟩,
      fun _ hmem => hmem⟩
    · exact (h.stands writable hmem hreadable).congr rfl rfl le_rfl
    · cases hmem
  exact (hemptied.runAll h.pending).1

theorem Serving.react (h : Serving env Wrote since floor w) {event : Event}
    (hwrote : ∀ k data, event = .write k data → Wrote k data) :
    Serving env Wrote since floor (react env w event) := by
  have hstays : ∀ {α : Type} {p : Fw α}, Frame Stays p → Serving env Wrote since floor (left p w) :=
    fun hp => h.after (tends_of_stays hp)
  -- publishing is left to `turn` and to the end of a window; `write` stores what came in
  cases event with
  | update =>
      refine hstays (Frame.bind (Frame.update fun _ => ?_) fun _ => stays_refreshAndSchedule)
      exact stays_of_eq rfl rfl
  | changed => exact hstays (stays_of_keeps (keeps_changed fun _ => rfl))
  | setAdvertisingInterval ms => exact hstays (stays_setAdvertisingInterval ms)
  | setFastTimeout ms => exact hstays (stays_of_keeps (keeps_setFastTimeout (fun _ _ => rfl) ms))
  | write k data => exact (h.after (tends_onWrite k data)).store (hwrote k data rfl)
  | challenge data =>
      simp only [Firmware.react]
      split
      · unfold onChallenge
        split
        · exact hstays (stays_reject _)
        · refine ⟨h.early, h.later, h.numbered, fun writable hmem hreadable => ?_,
            fun writable hmem => ?_⟩
          · exact (h.stands writable hmem hreadable).congr rfl rfl le_rfl
          · rcases List.mem_append.mp hmem with hold | hnew
            · exact h.pending writable hold
            · cases List.mem_singleton.mp hnew
      · exact h
  | connect =>
      simp only [Firmware.react]
      split
      · refine hstays (stays_guarded ?_)
        exact Frame.bind (stays_of_keeps stocked_rateKeeps.goFast) fun _ =>
          Frame.doIf stays_republishRate
      · exact h
  | disconnect =>
      simp only [Firmware.react]
      split
      · exact hstays (stays_guarded (stays_of_keeps
          (stocked_rateKeeps.goIdleAfterTimeout fun _ => rfl)))
      · exact h
  | fire handle =>
      simp only [Firmware.react, fire]
      split
      · exact h
      · exact (h.stays (u := w.clearTimeout handle) (stays_of_eq rfl rfl)).after (tends_runJob _)
  | turn => exact h.turn

/-! ## `setup()` -/

/-- What `setup()` registers is a reading of every readable entry. -/
theorem readings_of_readValues {ws : List Writable} {values : List (Writable × Bytes)}
    (h : readValues env ws w = .ok values u) :
    values.map Prod.fst = ws.filter (·.readable) ∧ source u = source w ∧ w.calls ≤ u.calls ∧
      ∀ v ∈ values, ∃ n, w.calls ≤ n ∧ n < u.calls ∧ Reading env w.st n v.1 v.2 := by
  induction ws generalizing w values with
  | nil =>
      obtain ⟨rfl, rfl⟩ := EStateM.Result.ok.inj h
      exact ⟨rfl, rfl, le_rfl, fun _ hmem => absurd hmem List.not_mem_nil⟩
  | cons writable rest ih =>
      by_cases hreadable : writable.readable = true
      · rw [readValues, if_pos hreadable] at h
        obtain ⟨bytes, t, hvalue, h⟩ := bind_ok.mp h
        obtain ⟨later, t', hrest, h⟩ := bind_ok.mp h
        obtain ⟨rfl, rfl⟩ := EStateM.Result.ok.inj h
        obtain ⟨hentries, hsource, hlater, hreadings⟩ := ih hrest
        obtain ⟨hreading, hcalls⟩ := reading_of_readValue hvalue
        have hkept : source t = source w :=
          ((source_serveKeeps).toSealKeeps.readValue writable).ok hvalue
        refine ⟨?_, hsource.trans hkept, hcalls.le.trans hlater, ?_⟩
        · rw [List.map_cons, hentries, List.filter_cons_of_pos hreadable]
        · intro v hv
          rcases List.mem_cons.mp hv with rfl | hv
          · exact ⟨w.calls, le_rfl, hcalls.trans_le hlater, hreading⟩
          · obtain ⟨n, hfrom, hto, hread⟩ := hreadings v hv
            exact ⟨n, hcalls.le.trans hfrom, hto, hread.congr hkept⟩
      · rw [readValues, if_neg hreadable] at h
        obtain ⟨hentries, hrest⟩ := ih h
        exact ⟨by rw [hentries, List.filter_cons_of_neg hreadable], hrest⟩

theorem held_register {values : List (Writable × Bytes)}
    (hapart : (values.map (·.1.entry)).Nodup) (offered : Bool) (w : World) :
    ∀ v ∈ values, (w.register values offered).held v.1.entry = .served v.1 v.2 := by
  show ∀ v ∈ values, (values.foldl (fun w v => w.serve v.1 v.2) w).held v.1.entry = _
  induction values generalizing w with
  | nil => exact fun _ hmem => absurd hmem List.not_mem_nil
  | cons first rest ih =>
      obtain ⟨hfresh, hrest⟩ := List.nodup_cons.mp hapart
      intro v hv
      rcases List.mem_cons.mp hv with rfl | hv
      · -- what is registered after it goes elsewhere
        have hkept : ∀ (later : List (Writable × Bytes)) (u : World),
            (∀ x ∈ later, x.1.entry ≠ v.1.entry) →
            (later.foldl (fun w v => w.serve v.1 v.2) u).held v.1.entry = u.held v.1.entry := by
          intro later
          induction later with
          | nil => exact fun _ _ => rfl
          | cons x later ih =>
              intro u hne
              refine (ih (u.serve x.1 x.2) fun y hy => hne y (List.mem_cons_of_mem _ hy)).trans ?_
              exact Function.update_of_ne (hne x List.mem_cons_self).symm _ _
        refine (hkept rest (w.serve v.1 v.2) fun x hx heq => ?_).trans (Function.update_self _ _ _)
        exact hfresh (List.mem_map.mpr ⟨x, hx, heq⟩)
      · exact ih hrest (w.serve first.1 first.2) v hv

theorem calls_register (values : List (Writable × Bytes)) (offered : Bool) (w : World) :
    (w.register values offered).calls = w.calls := by
  show (values.foldl (fun w v => w.serve v.1 v.2) w).calls = _
  induction values generalizing w with
  | nil => rfl
  | cons first rest ih => exact ih (w.serve first.1 first.2)

theorem serving_register {values : List (Writable × Bytes)} {offered : Bool}
    (hread : readValues env w.st.plan.writable w = .ok values u)
    (hnumbered : Numbered w.st.plan.writable)
    (hidle : ∀ writable, .publishRead writable ∉ w.deferred) (hsince : since ≤ w.calls) :
    Serving env Wrote since since (u.asked.register values offered) := by
  obtain ⟨hentries, hsource, hlater, hreadings⟩ := readings_of_readValues hread
  have hkeeps : ServeKeeps fun w : World => (source w, w.st.plan.writable, w.deferred) := {}
  have hread' : (source u, u.st.plan.writable, u.deferred) =
      (source w, w.st.plan.writable, w.deferred) := (hkeeps.toSealKeeps.readValues _).ok hread
  have hregistered : (source (u.asked.register values offered),
      (u.asked.register values offered).st.plan.writable,
      (u.asked.register values offered).deferred) =
        (source w, w.st.plan.writable, w.deferred) :=
    (hkeeps.register (fun _ _ => rfl) values offered u.asked).trans hread'
  obtain ⟨hsource', hrest⟩ := Prod.mk.inj hregistered
  obtain ⟨hwritable, hdeferred⟩ := Prod.mk.inj hrest
  have hcalls : (u.asked.register values offered).calls = u.calls + 1 :=
    calls_register values offered u.asked
  refine ⟨le_rfl, by omega, hwritable ▸ hnumbered, ?_, fun writable hmem => ?_⟩
  · intro writable hmem hreadable
    rw [hwritable] at hmem
    have hapart : (values.map (·.1.entry)).Nodup := by
      rw [show values.map (·.1.entry) = (values.map Prod.fst).map (·.entry) by simp, hentries]
      exact List.Nodup.sublist ((List.filter_sublist).map _) hnumbered.nodup
    have hin : writable ∈ values.map Prod.fst := by
      rw [hentries]
      exact List.mem_filter.mpr ⟨hmem, hreadable⟩
    obtain ⟨v, hv, rfl⟩ := List.mem_map.mp hin
    obtain ⟨n, hfrom, hto, hreading⟩ := hreadings v hv
    exact .read n v.2 (hsince.trans hfrom) (by omega) (held_register hapart offered u.asked v hv)
      (hreading.congr hsource'.symm)
  · rw [hdeferred] at hmem
    exact absurd hmem (hidle writable)

theorem serving_claim {opts : SetupOpts} (h : claim env opts w = .ok () u)
    (hnumbered : Numbered w.st.plan.writable)
    (hidle : ∀ writable, .publishRead writable ∉ w.deferred) (hsince : since ≤ w.calls) :
    Serving env Wrote since since u := by
  unfold claim at h
  rw [look_bind] at h
  obtain ⟨_, v, hsaved, h⟩ := bind_ok.mp h
  have hstays : Stays w v := (Frame.doIf stays_sealMoves.saveMarks).ok hsaved
  have hwritable : v.st.plan.writable = w.st.plan.writable := congrArg Stock.writable hstays.1
  have hdeferred : v.deferred = w.deferred := congrArg Stock.deferred hstays.1
  by_cases hnone : w.st.plan.writable = []
  · simp only [id_eq, hnone, ne_eq, not_true_eq_false, doIf, if_false] at h
    obtain ⟨-, rfl⟩ := EStateM.Result.ok.inj h
    refine ⟨le_rfl, hsince.trans hstays.2, hwritable ▸ hnumbered, fun writable hmem => ?_,
      fun writable hmem => ?_⟩
    · rw [hwritable, hnone] at hmem
      cases hmem
    · rw [hdeferred] at hmem
      exact absurd hmem (hidle writable)
  · simp only [id_eq, ne_eq, hnone, not_false_eq_true, doIf, if_true] at h
    obtain ⟨values, t, hread, h⟩ := bind_ok.mp h
    obtain ⟨_, t', hasked, h⟩ := bind_ok.mp h
    obtain ⟨-, rfl⟩ := EStateM.Result.ok.inj h
    have hleft : left (ask env .setServices) t = t.asked := left_ask _ _
    rw [left_ok hasked] at hleft
    rw [hleft]
    refine serving_register (w := v) (hwritable ▸ hread) (hwritable ▸ hnumbered) ?_
      (hsince.trans hstays.2)
    rw [hdeferred]
    exact hidle

/-- A `setup()` that came as far as publishing, with no callback pending. -/
theorem serving_setup {opts : SetupOpts} {b b' : Board} {st : St}
    (h : setup env opts b = .ok () b' ∨
      ∃ e, setup env opts b = .error e b' ∧ e.code = some .advertisingRejected)
    (hidle : ∀ writable, .publishRead writable ∉ b.deferred) (hst : b'.st = some st) :
    Serving env Wrote b.calls b.calls (b'.world st) := by
  obtain ⟨next, v, hnext, hclaim, rfl⟩ := setup_attends h
  obtain rfl : (left (attend env) (left (refreshAdvertising env false) v)).st = st :=
    Option.some.inj hst
  have hswapped : (b.swap next).deferred = b.deferred := by
    unfold Board.swap
    cases b.st <;> rfl
  have hclaimed : Serving env Wrote b.calls b.calls v :=
    serving_claim hclaim (numbered_planPacket (built_of_buildNext hnext).plan)
      (by rw [hswapped]; exact hidle) (Nat.le_add_right ..)
  have hpublished : Serving env Wrote b.calls b.calls (left (refreshAdvertising env false) v) :=
    hclaimed.stays (stays_refresh false v)
  refine hpublished.stays (Frame.bind (R := Stays) stays_schedule (fun _ => ?_) _)
  exact Frame.update fun _ => stays_of_eq rfl rfl

theorem source_eventKeeps : EventKeeps source where

/-- It seals under the device's own address. -/
theorem own_setup {opts : SetupOpts} {b b' : Board} {st : St}
    (h : setup env opts b = .ok () b' ∨
      ∃ e, setup env opts b = .error e b' ∧ e.code = some .advertisingRejected)
    (hst : b'.st = some st) (hkeyed : st.key.isSome = true) :
    st.mac = macBytes env.address := by
  obtain ⟨next, v, hnext, hclaim, rfl⟩ := setup_attends h
  obtain rfl : (left (attend env) (left (refreshAdvertising env false) v)).st = st :=
    Option.some.inj hst
  have hinstall : InstallKeeps source := { source_eventKeeps with }
  have hkept : source (left (attend env) (left (refreshAdvertising env false) v)) =
      source (b.swap next) := by
    refine ((Frame.bind (R := Keeps source) hinstall.toScheduleKeeps.schedule
      fun _ => Frame.update hinstall.listening).left_eq _).trans ?_
    exact ((hinstall.toRefreshKeeps.refreshAdvertising false).left_eq v).trans
      ((hinstall.toServeKeeps.claim hinstall.offered opts).ok hclaim)
  obtain ⟨-, hrest⟩ := Prod.mk.inj hkept
  obtain ⟨hkey, hmac⟩ := Prod.mk.inj hrest
  have hkeyed' : (b.swap next).st.key.isSome = true := by rwa [hkey] at hkeyed
  rw [hmac]
  exact own_buildNext hnext hkeyed'

/-- Calls are not taken back. -/
theorem Serving.mark (h : Serving env Wrote since floor w) : Serving env Wrote since w.calls w :=
  ⟨h.early.trans h.later, le_rfl, h.numbered, h.stands, h.pending⟩

end BTHomeWritable.Firmware
