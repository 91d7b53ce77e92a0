import BTHomeWritable.Firmware.Publishing
import BTHomeWritable.Firmware.Reads
import BTHomeWritable.Firmware.Timers

/-!
# Windows of changes

The calls of `changed()` that fall into one window are announced together when
it expires.  The window is the timeout of `publishChange`: there is one at most,
nothing but its own expiry ends it, and nothing but its expiry counts the
revision up.  `publishChange` reads every readable entry and publishes what it
read before it hands the radio a packet, so that whoever is sent to read by the
new revision finds the values of that moment.

* `Republished` says of an entry that its characteristic holds a reading taken on
  the way from one world to another; `republished_publishReads` is the pass over
  all entries, and `Answers` asks that nothing throws on the way.
* `Hands` says that packets were handed over with what the characteristics held.
* `Announces` is the expiry as a whole, and `announces_react` shows it of the event
  that fires the timeout.
* `Opened` carries over a run that a kept handle is that of an open window.

`Windowed` gathers what holds of windows at any moment, and
`changes_counted_by_window` says it of every run, with the revision counted by the
windows that have expired.
-/

namespace BTHomeWritable.Firmware

open Device Throwing

variable {env : Env} {w u : World} {writable : Writable}

/-! ## Readings -/

/-- `bytes` is a reading of `writable` that call `n` gave. -/
def Reading (env : Env) (st : St) (n : ℕ) (writable : Writable) (bytes : Bytes) : Prop :=
  ∃ e o, st.entries[writable.entryIndex]? = some e ∧
    env.reading n writable.entryIndex = .ok o ∧
    let obj := (if e.id.isSome then writable.spec.id else o.id) :: o.value
    match st.key with
    | none => bytes = obj
    | some key => ∃ counter, bytes = sealedWith env.ccm key st.mac obj READ_INFO counter

/-- A characteristic was published with a reading of `writable` that was taken on the way from `w`
to `w'`. -/
def Republished (env : Env) (w w' : World) (writable : Writable) (held : Held) : Prop :=
  ∃ n bytes, w.calls ≤ n ∧ n < w'.calls ∧ held = .served writable bytes ∧
    Reading env w.st n writable bytes

/-- Calls are numbered upwards. -/
def Later (w w' : World) : Prop := w.calls ≤ w'.calls

instance : IsPreorder World Later where
  refl _ := le_rfl
  trans _ _ _ := le_trans

theorem later_sealMoves : SealMoves Later where
  asked _ := Nat.le_succ _
  bumpAdvCounter _ := le_rfl
  advMark _ _ := le_rfl
  writeJSON _ := le_rfl

theorem later_publishReads (writables : List Writable) :
    Frame Later (publishReads env writables) :=
  (later_sealMoves).seals.publishReads fun _ _ _ _ => le_rfl

/-- What a reading is made from. -/
def source (w : World) : List Entry × Option Bytes × Bytes := (w.st.entries, w.st.key, w.st.mac)

theorem source_serveKeeps : ServeKeeps source where

theorem Reading.congr {n : ℕ} {bytes : Bytes} (h : Reading env u.st n writable bytes)
    (hsource : source u = source w) : Reading env w.st n writable bytes := by
  simp only [source, Prod.mk.injEq] at hsource
  obtain ⟨hentries, hkey, hmac⟩ := hsource
  unfold Reading at h ⊢
  rwa [hentries, hkey, hmac] at h

theorem reading_of_readValue {bytes : Bytes} (h : readValue env writable w = .ok bytes u) :
    Reading env w.st w.calls writable bytes ∧ w.calls < u.calls := by
  unfold readValue at h
  simp only [look_bind, id_eq] at h
  cases hentry : w.st.entries[writable.entryIndex]? with
  | none =>
      rw [hentry] at h
      cases h
  | some e =>
      simp only [hentry] at h
      split at h
      · cases h
      rw [update_bind] at h
      cases hread : env.reading w.calls writable.entryIndex with
      | error x =>
          rw [hread] at h
          cases h
      | ok o =>
          simp only [hread] at h
          unfold Reading
          split at h
          · have hlater := (later_sealMoves).sealUnder _ _ |>.ok h
            obtain ⟨key, hkey, hsealed⟩ := sealUnder_ok h
            have hkey' : w.st.key = some key := hkey
            refine ⟨⟨e, o, hentry, hread, ?_⟩, hlater⟩
            rw [hkey']
            exact ⟨_, hsealed⟩
          · rename_i hkey
            obtain ⟨rfl, rfl⟩ := EStateM.Result.ok.inj h
            refine ⟨⟨e, o, hentry, hread, ?_⟩, Nat.lt_succ_self _⟩
            rw [Option.not_isSome_iff_eq_none.mp hkey]

theorem Republished.mono {v w' : World} {held : Held} (h : Republished env v u writable held)
    (hsource : source v = source w) (hbefore : Later w v) (hafter : Later u w') :
    Republished env w w' writable held := by
  obtain ⟨n, bytes, hfrom, hto, hheld, hreading⟩ := h
  exact ⟨n, bytes, le_trans hbefore hfrom, lt_of_lt_of_le hto hafter, hheld,
    hreading.congr hsource⟩

theorem republished_publishRead (h : publishRead env writable w = .ok () u) :
    Republished env w u writable (u.held writable.entry) := by
  obtain ⟨bytes, v, hvalue, h⟩ := bind_ok.mp h
  obtain ⟨_, x, hasked, h⟩ := bind_ok.mp h
  obtain ⟨-, rfl⟩ := EStateM.Result.ok.inj h
  obtain ⟨hreading, hlater⟩ := reading_of_readValue hvalue
  have hx : Later v x := (frame_ask (later_sealMoves).asked _).ok hasked
  exact ⟨w.calls, bytes, le_rfl, lt_of_lt_of_le hlater hx, Function.update_self _ _ _, hreading⟩

theorem held_publishReads {k : ℕ} {writables : List Writable}
    (hk : ∀ writable ∈ writables, writable.entry ≠ k) :
    Frame (Keeps fun w : World => w.held k) (publishReads env writables) := by
  have hkeeps : SealKeeps fun w : World => w.held k := {}
  refine hkeeps.moves.seals.publishReads fun writable hmem w bytes => ?_
  exact Function.update_of_ne (hk writable hmem).symm _ _

/-- Publishing the readable entries leaves every one of them with a reading of its own. -/
theorem republished_publishReads {writables : List Writable}
    (hapart : (writables.map (·.entry)).Nodup) (h : publishReads env writables w = .ok () u) :
    ∀ writable ∈ writables, writable.readable = true →
      Republished env w u writable (u.held writable.entry) := by
  induction writables generalizing w with
  | nil => simp
  | cons first rest ih =>
      obtain ⟨_, v, hfirst, hrest⟩ := bind_ok.mp h
      obtain ⟨hfresh, hapart⟩ := List.nodup_cons.mp hapart
      have hsource : source v = source w :=
        (Frame.doIf ((source_serveKeeps).publishRead first)).ok hfirst
      have hbefore : Later w v :=
        (Frame.doIf ((later_sealMoves).seals.publishRead fun _ _ => le_rfl)).ok hfirst
      have hafter : Later v u := (later_publishReads rest).ok hrest
      intro writable hmem hreadable
      rcases List.mem_cons.mp hmem with rfl | hmem
      · rw [hreadable] at hfirst
        have hother : ∀ other ∈ rest, other.entry ≠ writable.entry := fun other hother heq =>
          hfresh (List.mem_map.mpr ⟨other, hother, heq⟩)
        have hkept : u.held writable.entry = v.held writable.entry :=
          (held_publishReads hother).ok hrest
        rw [hkept]
        exact (republished_publishRead hfirst).mono rfl le_rfl hafter
      · exact (ih hapart hrest writable hmem hreadable).mono hsource hbefore le_rfl

/-! ## Nothing throws -/

/-- No `get()` throws, and neither do the flash, the cipher and `NRF.updateServices`. -/
structure Answers (env : Env) : Prop where
  get : ∀ n i, ∃ o, env.read n i = .ok o
  writeMarks : ∀ n, env.throws n .writeMarks = none
  encrypt : ∀ n, env.throws n .encrypt = none
  updateServices : ∀ n, env.throws n .updateServices = none

theorem Answers.sealsQuietly (h : Answers env) (w : World) : SealsQuietly env w := by
  unfold SealsQuietly
  split
  · exact ⟨h.writeMarks _, h.encrypt _⟩
  · exact h.encrypt _

theorem Answers.publishRead (h : Answers env) (haccess : Accessible w.st.entries writable)
    (hreadable : writable.readable = true) :
    ∃ u, Firmware.publishRead env writable w = .ok () u := by
  obtain ⟨e, hentry, hget⟩ := haccess
  obtain ⟨o, hread⟩ := h.get w.calls writable.entryIndex
  have hreading : ∃ o, env.reading w.calls writable.entryIndex = .ok o := by
    refine ⟨o, ?_⟩
    rw [Env.reading, hread]
    rfl
  obtain ⟨value, u, hvalue⟩ := (readValue_returns_iff hreading).mpr
    ⟨e, hentry, hget.symm.trans hreadable, fun _ => h.sealsQuietly _⟩
  refine ⟨u.asked.serve writable value, ?_⟩
  unfold Firmware.publishRead
  rw [bind_of_ok hvalue, bind_of_ok (ask_of_none (h.updateServices _))]
  rfl

theorem Answers.publishReads (h : Answers env) {writables : List Writable}
    (haccess : ∀ writable ∈ writables, Accessible w.st.entries writable) :
    ∃ u, Firmware.publishReads env writables w = .ok () u := by
  induction writables generalizing w with
  | nil => exact ⟨w, rfl⟩
  | cons first rest ih =>
      have hfirst : ∃ v, doIf first.readable (Firmware.publishRead env first) w = .ok () v := by
        unfold doIf
        split
        · rename_i hreadable
          exact h.publishRead (haccess first (List.mem_cons_self ..)) hreadable
        · exact ⟨w, rfl⟩
      obtain ⟨v, hfirst⟩ := hfirst
      have hsource : source v = source w :=
        (Frame.doIf ((source_serveKeeps).publishRead first)).ok hfirst
      have hentries : v.st.entries = w.st.entries := congrArg Prod.fst hsource
      obtain ⟨u, hrest⟩ := ih (w := v) fun writable hmem => by
        rw [hentries]
        exact haccess writable (List.mem_cons_of_mem _ hmem)
      exact ⟨u, (bind_of_ok hfirst).trans hrest⟩

/-! ## Packets -/

/-- What a packet is handed over with. -/
def shelf (w : World) : (ℕ → Held) × ℕ := (w.held, w.st.revision)

/-- Packets were handed over with what the characteristics held and the revision was. -/
def Hands (w w' : World) : Prop :=
  (∃ later, w'.handed = w.handed ++ later ∧
    ∀ h ∈ later, h.held = w.held ∧ h.st.revision = w.st.revision) ∧
    shelf w' = shelf w ∧ Later w w'

instance : IsPreorder World Hands where
  refl w := ⟨⟨[], by simp, by simp⟩, rfl, le_rfl⟩
  trans u v w h h' := by
    obtain ⟨⟨first, hfirst, hall⟩, hshelf, hlater⟩ := h
    obtain ⟨⟨second, hsecond, hall'⟩, hshelf', hlater'⟩ := h'
    refine ⟨⟨first ++ second, ?_, ?_⟩, hshelf'.trans hshelf, le_trans hlater hlater'⟩
    · rw [hsecond, hfirst, List.append_assoc]
    · intro packet hmem
      rcases List.mem_append.mp hmem with hmem | hmem
      · exact hall packet hmem
      · obtain ⟨hheld, hrevision⟩ := hall' packet hmem
        simp only [shelf, Prod.mk.injEq] at hshelf
        exact ⟨hheld.trans hshelf.1, hrevision.trans hshelf.2⟩

theorem hands_of_quiet {w' : World} (hhanded : w'.handed = w.handed) (hshelf : shelf w' = shelf w)
    (hlater : Later w w') : Hands w w' := ⟨⟨[], by simp [hhanded], by simp⟩, hshelf, hlater⟩

theorem hands_sealMoves : SealMoves Hands where
  asked _ := hands_of_quiet rfl rfl (Nat.le_succ _)
  bumpAdvCounter _ := hands_of_quiet rfl rfl le_rfl
  advMark _ _ := hands_of_quiet rfl rfl le_rfl
  writeJSON _ := hands_of_quiet rfl rfl le_rfl

theorem hands_publishMoves : PublishMoves env Hands where
  toSeals := hands_sealMoves.seals
  hand w sd opts accepted :=
    ⟨⟨[⟨sd, opts, accepted, w.st, w.held⟩], rfl, by simp⟩, rfl, le_rfl⟩
  onAir _ _ := hands_of_quiet rfl rfl le_rfl
  dropLastSd _ := hands_of_quiet rfl rfl le_rfl

theorem hands_rebuildMoves : RebuildMoves env Hands where
  toSeals := hands_sealMoves.seals
  bumpPacketId _ := hands_of_quiet rfl rfl le_rfl
  render _ _ := hands_of_quiet rfl rfl (Nat.le_succ _)

theorem hands_scheduleMoves : ScheduleMoves Hands where
  asked _ := hands_of_quiet rfl rfl (Nat.le_succ _)
  clearTimer w := by
    obtain ⟨timers, hclear⟩ := w.clearTimer_eq
    rw [hclear]
    exact hands_of_quiet rfl rfl le_rfl
  settle _ _ _ := hands_of_quiet rfl rfl le_rfl
  setTimer _ _ := hands_of_quiet rfl rfl le_rfl

/-- A packet that is published is the first to be handed over. -/
theorem handed_publish (sd : Bytes) (w : World) :
    ∃ accepted rest, (left (publish env sd) w).handed =
      w.handed ++ ⟨sd, advOptions w.st, accepted, w.st, w.held⟩ :: rest := by
  cases hradio : env.throws w.calls (.setAdvertising sd (advOptions w.st)) with
  | none =>
      rw [left_ok (publish_of_accepts hradio)]
      exact ⟨true, [], rfl⟩
  | some f =>
      obtain ⟨⟨rest, hrest, -⟩, -⟩ :=
        (hands_publishMoves).publishFallback sd (advOptions w.st) f.error (refused sd w)
      rw [left_congr (publish_of_refused hradio), hrest]
      exact ⟨false, rest, by simp [refused, World.hand, World.asked]⟩

/-! ## The expiry of a window -/

/-- Rendering the packet of a change throws: a reading has changed its object, or the packet has
outgrown its budget. -/
def Unrendered (env : Env) (w : World) : Prop :=
  ∃ v x, publishReads env w.st.plan.writable w.countChange = .ok () v ∧
    rendered env false v = .error x

/-- A packet is handed over when every readable characteristic has been republished. -/
def Promised (env : Env) (w w' : World) (h : Handed) : Prop :=
  h.st.revision = (w.st.revision + 1) % 256 ∧
    ∀ writable ∈ w.st.plan.writable, writable.readable = true →
      Republished env w w' writable (h.held writable.entry)

/-- What the expiry of a window does on the way from `w`, where its timeout is spent, to `w'`. -/
structure Announces (env : Env) (w w' : World) : Prop where
  revision : w'.st.revision = (w.st.revision + 1) % 256
  /-- The first packet handed over, if there is one, carries what the plan holds then. -/
  handed : ∃ later, w'.handed = w.handed ++ later ∧ (∀ h ∈ later, Promised env w w' h) ∧
    ∀ h, later.head? = some h → (picture h.st).ShownBy env h.sd
  republished : Answers env → ∀ writable ∈ w.st.plan.writable, writable.readable = true →
    Republished env w w' writable (w'.held writable.entry)
  carried : Answers env → w'.handed ≠ w.handed ∨ Unrendered env w

theorem Announces.mono {w' : World} (h : Announces env w u) (hhanded : w'.handed = u.handed)
    (hshelf : shelf w' = shelf u) (hlater : Later u w') : Announces env w w' := by
  simp only [shelf, Prod.mk.injEq] at hshelf
  obtain ⟨later, hgrown, hpromised, hshown⟩ := h.handed
  refine ⟨hshelf.2.trans h.revision, ⟨later, hhanded.trans hgrown, ?_, hshown⟩, ?_, ?_⟩
  · intro packet hmem
    obtain ⟨hrevision, hall⟩ := hpromised packet hmem
    exact ⟨hrevision, fun writable hwritable hreadable =>
      (hall writable hwritable hreadable).mono rfl le_rfl hlater⟩
  · intro hanswers writable hwritable hreadable
    rw [hshelf.1]
    exact (h.republished hanswers writable hwritable hreadable).mono rfl le_rfl hlater
  · rw [hhanded]
    exact h.carried

/-- What `publishChange` does once the values are out. -/
def carry (env : Env) : Fw Unit := do
  refreshAdvertising env false
  schedule env
  update World.noteReturn

theorem hands_carry : Frame Hands (carry env) := by
  refine Frame.bind (frame_refreshAdvertising hands_publishMoves hands_rebuildMoves false)
    fun _ => ?_
  refine Frame.bind (hands_scheduleMoves).schedule fun _ => Frame.update fun w => ?_
  exact hands_of_quiet rfl rfl le_rfl

theorem handed_scheduleKeeps : ScheduleKeeps fun w : World => w.handed where

theorem handed_carry (w : World) :
    (left (carry env) w).handed = (left (refreshAdvertising env false) w).handed := by
  refine left_bind (I := fun u : World =>
    u.handed = (left (refreshAdvertising env false) w).handed) rfl ?_
  intro _ u _ hu
  refine left_bind (I := fun v : World =>
    v.handed = (left (refreshAdvertising env false) w).handed) ?_ fun _ _ _ hv => hv
  rw [(handed_scheduleKeeps).schedule.left_eq u]
  exact hu

theorem handed_rebuildKeeps : RebuildKeeps fun w : World => w.handed where

variable (env) in
/-- Building a packet hands nothing over, and a packet that was built is handed over first. -/
theorem handed_refresh (w : World) :
    (∃ e u, rebuild env false w = .error e u ∧
        (left (refreshAdvertising env false) w).handed = w.handed) ∨
      ∃ h rest, (left (refreshAdvertising env false) w).handed = w.handed ++ h :: rest ∧
        (picture h.st).ShownBy env h.sd := by
  cases hrebuilt : rebuild env false w with
  | error e u =>
      have hkept : u.handed = w.handed := ((handed_rebuildKeeps).rebuild false).error hrebuilt
      refine .inl ⟨e, u, rfl, ?_⟩
      rw [refreshAdvertising, left_error (bind_of_error hrebuilt), hkept]
  | ok sd u =>
      have hkept : u.handed = w.handed := ((handed_rebuildKeeps).rebuild false).ok hrebuilt
      obtain ⟨accepted, rest, hhanded⟩ := handed_publish sd u
      rw [hkept] at hhanded
      refine .inr ⟨⟨sd, advOptions u.st, accepted, u.st, u.held⟩, rest, ?_,
        shownBy_rebuild hrebuilt⟩
      rw [refreshAdvertising, left_bind_of_ok hrebuilt]
      exact hhanded

theorem Answers.sealIfKeyed (h : Answers env) (sd : Bytes) (w : World) :
    ∃ frame u, Firmware.sealIfKeyed env sd w = .ok frame u := by
  unfold Firmware.sealIfKeyed
  simp only [look_bind, id_eq]
  split
  · rename_i hkey
    obtain ⟨sealed, u, hsealed⟩ :=
      (sealUnder_returns_iff (sd.drop 1) DEV_INFO_ENC hkey).mpr (h.sealsQuietly w)
    exact ⟨_, u, bind_of_ok hsealed⟩
  · exact ⟨sd, w, rfl⟩

theorem announces_announce (hnumbered : Numbered w.st.plan.writable)
    (haccess : ∀ writable ∈ w.st.plan.writable, Accessible w.st.entries writable) :
    Announces env w (left (announce env) w.countChange) := by
  have hshelf : ServeKeeps fun w : World => (w.handed, w.st.revision, w.st.plan.writable) := {}
  have hframe : Frame (Keeps fun w : World => (w.handed, w.st.revision, w.st.plan.writable))
      (publishReads env w.st.plan.writable) := hshelf.publishReads _
  have hrun : left (announce env) w.countChange =
      left (publishReads env w.st.plan.writable >>= fun _ => carry env) w.countChange := rfl
  cases hreads : publishReads env w.st.plan.writable w.countChange with
  | error e v =>
      have hkept := hframe.error hreads
      simp only [Keeps, Prod.mk.injEq] at hkept
      obtain ⟨hhanded, hrevision, -⟩ := hkept
      -- publishing threw, which nothing does that answers; no packet has been handed over
      have hnot : ¬ Answers env := fun hanswers => by
        obtain ⟨u, hu⟩ := hanswers.publishReads (w := w.countChange) haccess
        rw [hreads] at hu
        cases hu
      rw [hrun, left_error (bind_of_error hreads)]
      exact
        { revision := hrevision
          handed := ⟨[], hhanded.trans (List.append_nil w.handed).symm, by simp, by simp⟩
          republished := fun hanswers => absurd hanswers hnot
          carried := fun hanswers => absurd hanswers hnot }
  | ok _ v =>
      have hkept := hframe.ok hreads
      simp only [Keeps, Prod.mk.injEq] at hkept
      obtain ⟨hhanded, hrevision, -⟩ := hkept
      rw [hrun, left_bind_of_ok hreads]
      -- everything has been published by now, so what is handed over from here on shows
      -- it
      have hcarried : Hands v (left (carry env) v) := hands_carry v
      obtain ⟨⟨later, hgrown, hall⟩, hheld, hlater⟩ := hcarried
      simp only [shelf, Prod.mk.injEq] at hheld
      have hbefore : Later w.countChange v := (later_publishReads _).ok hreads
      have hread : ∀ writable ∈ w.st.plan.writable, writable.readable = true →
          Republished env w (left (carry env) v) writable (v.held writable.entry) :=
        fun writable hwritable hreadable =>
          (republished_publishReads hnumbered.nodup hreads writable hwritable hreadable).mono
            rfl le_rfl hlater
      refine ⟨hheld.2.trans hrevision,
        ⟨later, hgrown.trans (congrArg (· ++ later) hhanded), ?_, ?_⟩, ?_, ?_⟩
      · intro packet hmem
        obtain ⟨hshown, hcounted⟩ := hall packet hmem
        rw [Promised, hshown]
        exact ⟨hcounted.trans hrevision, hread⟩
      · intro packet hhead
        rcases handed_refresh env v with ⟨-, -, -, hnone⟩ | ⟨h, rest, hsome, hshown⟩
        · have hnil : later = [] := by
            rw [← handed_carry, hgrown] at hnone
            exact List.append_right_eq_self.mp hnone
          rw [hnil] at hhead
          cases hhead
        · have hcons : later = h :: rest := by
            rw [← handed_carry, hgrown] at hsome
            exact List.append_cancel_left hsome
          rw [hcons] at hhead
          obtain rfl := Option.some.inj hhead
          exact hshown
      · intro _ writable hwritable hreadable
        rw [hheld.1]
        exact hread writable hwritable hreadable
      · intro hanswers
        rw [handed_carry]
        rcases handed_refresh env v with ⟨e, u, hunbuilt, -⟩ | ⟨h, rest, hsome, -⟩
        · refine .inr ⟨v, ?_⟩
          cases hrendered : rendered env false v with
          | error x => exact ⟨x, hreads, rfl⟩
          | ok sd =>
              obtain ⟨frame, u', hsealed⟩ :=
                hanswers.sealIfKeyed sd (renderedWorld env false v)
              rw [rebuild_of_ok hrendered, hsealed] at hunbuilt
              cases hunbuilt
        · refine .inl fun hsame => ?_
          rw [hsame, ← show v.handed = w.handed from hhanded] at hsome
          simp at hsome

theorem react_fire {handle : ℕ} {t : Timer} (ht : w.timers.find? (·.handle = handle) = some t)
    (hjob : t.job = .publishChange) : react env w (.fire handle) =
      left (guarded env (publishChange env)) (w.clearTimeout handle) := by
  simp only [react, fire, ht, hjob]
  rfl

theorem announces_react (hnumbered : Numbered w.st.plan.writable)
    (haccess : ∀ writable ∈ w.st.plan.writable, Accessible w.st.entries writable) {handle : ℕ}
    {t : Timer} (ht : w.timers.find? (·.handle = handle) = some t) (hjob : t.job = .publishChange) :
    Announces env (w.clearTimeout handle) (react env w (.fire handle)) := by
  have hannounced : Announces env (w.clearTimeout handle)
      (left (announce env) (w.clearTimeout handle).countChange) :=
    announces_announce hnumbered haccess
  rw [react_fire ht hjob]
  refine left_attempt (I := Announces env (w.clearTimeout handle)) hannounced fun e u _ hu => ?_
  have hquiet : Frame (Keeps fun w : World => (w.handed, shelf w)) (report env e) :=
    keeps_report (fun _ => rfl) e
  obtain ⟨hhanded, hshelf⟩ := Prod.mk.inj (hquiet.left_eq u)
  exact hu.mono hhanded hshelf (frame_report (later_sealMoves).asked e u)

/-! ## Open and closed -/

/-- A kept handle is that of a window that is open. -/
def Opened (w : World) : Prop :=
  w.st.changeTimer.isSome = true → w.pending .publishChange ≠ []

theorem opened_of_slot {w' : World} (h : Opened w)
    (hslot : slot .publishChange w' = slot .publishChange w) : Opened w' := by
  obtain ⟨hpending, hhandle⟩ := Prod.mk.inj hslot
  unfold Opened
  rw [hpending, show w'.st.changeTimer = w.st.changeTimer from hhandle]
  exact h

/-- A `changed()` that does not open a window leaves everything as it was. -/
theorem changed_cases (w : World) :
    left changed w = w ∨ w.st.changeTimer = none ∧ left changed w = w.setChangeTimer := by
  unfold changed
  rw [left_bind_of_ok (look_apply id w), id_eq]
  split
  · exact .inl rfl
  split
  · exact .inl rfl
  · rename_i hopen
    exact .inr ⟨by simpa using hopen, rfl⟩

theorem pending_setChangeTimer :
    w.setChangeTimer.pending .publishChange =
      w.pending .publishChange ++ [⟨w.nextTimer, .publishChange, CHANGE_HOLD⟩] := by
  have harms : Arms .publishChange CHANGE_HOLD w w.setChangeTimer := arms_setChangeTimer
  rw [harms.pending, if_pos rfl]

theorem touched_fire {t : Timer} {handle : ℕ}
    (ht : w.timers.find? (·.handle = handle) = some t) (hjob : t.job ≠ .publishChange) :
    .publishChange ∉ touched w (.fire handle) := by
  simp only [touched, ht, Option.elim_some]
  cases hcase : t.job with
  | wake => decide
  | goIdle => decide
  | publishChange => exact absurd hcase hjob

theorem changeTimer_react_expires {handle : ℕ} {t : Timer}
    (ht : w.timers.find? (·.handle = handle) = some t) (hjob : t.job = .publishChange) :
    (react env w (.fire handle)).st.changeTimer = none := by
  have hserve : ServeKeeps fun w : World => w.st.changeTimer := {}
  have htick : TickKeeps fun w : World => w.st.changeTimer := { render := fun _ _ => rfl }
  have hkept : Frame (Keeps fun w : World => w.st.changeTimer) (announce env) := by
    refine Frame.bind (Frame.look id) fun w => Frame.bind (hserve.publishReads _) fun _ => ?_
    refine Frame.bind (htick.toRefreshKeeps.refreshAdvertising false) fun _ => ?_
    exact Frame.bind htick.toScheduleKeeps.schedule fun _ => Frame.update fun _ => rfl
  rw [react_fire ht hjob]
  refine left_attempt (I := fun u : World => u.st.changeTimer = none) (hkept.left_eq _)
    fun e u _ hu => ?_
  have hquiet : Frame (Keeps fun w : World => w.st.changeTimer) (report env e) :=
    keeps_report (fun _ => rfl) e
  exact (hquiet.left_eq u).trans hu

theorem Opened.react (h : Opened w) (hhandled : Handled w) (event : Event) :
    Opened (react env w event) := by
  have hslot : .publishChange ∉ touched w event → Opened (Firmware.react env w event) :=
    fun hjob => opened_of_slot h (slot_react hhandled hjob)
  cases event with
  | changed =>
      show Opened (left changed w)
      rcases changed_cases w with hsame | ⟨-, hset⟩
      · rw [hsame]
        exact h
      · rw [hset]
        intro _
        rw [pending_setChangeTimer]
        simp
  | fire handle =>
      cases ht : w.timers.find? (·.handle = handle) with
      | none => exact hslot (by simp [touched, ht])
      | some t =>
          by_cases hjob : t.job = .publishChange
          · intro hkept
            rw [changeTimer_react_expires ht hjob] at hkept
            cases hkept
          · exact hslot (touched_fire ht hjob)
  | _ => exact hslot (by simp [touched])

theorem opened_run (env : Env) (file : Option MarksFile) (events : List BoardEvent) :
    Holds Opened (Runs.run (Board.step env) (Board.powerOn file) events) := by
  have hstep : ∀ (b : Board) (event : BoardEvent), Tidy b ∧ Holds Opened b → True →
      Tidy (Board.step env b event) ∧ Holds Opened (Board.step env b event) := by
    rintro b event ⟨htidy, hopened⟩ -
    refine ⟨htidy.step env event, ?_⟩
    cases event with
    | setup opts =>
        refine holds_setup (fun _ _ h => h) (fun next hnext hkept => ?_) hopened
        have hkeeps : InstallKeeps fun w : World => w.st.changeTimer := { render := fun _ _ => rfl }
        have hframe : Frame (Keeps _) (install env opts) := hkeeps.install opts
        rw [show (left (install env opts) (b.swap next)).st.changeTimer = next.changeTimer from
          hframe.left_eq (b.swap next), (built_of_buildNext hnext).changeTimer] at hkept
        cases hkept
    | on event =>
        unfold Board.step
        cases hst : b.st with
        | none =>
            intro st hst'
            rw [hst] at hst'
            cases hst'
        | some st =>
            rintro st' ⟨⟩
            have hw : Handled (b.world st) := by
              simpa only [Tidy, hst, Option.elim_some] using htidy
            exact (hopened st hst).react hw event
  have hstart : Tidy (Board.powerOn file) ∧ Holds Opened (Board.powerOn file) :=
    ⟨rfl, fun st hst => by cases hst⟩
  exact (Runs.run_invariant hstep hstart (Runs.Along.of_forall fun _ _ => trivial)).2

/-! ## Runs -/

/-- A step, and how many windows have been completed. -/
def changeStep (env : Env) (s : ℕ × World) (event : Event) : ℕ × World :=
  (if s.2.expires event then s.1 + 1 else s.1, react env s.2 event)

theorem run_changeStep (s : ℕ × World) (events : List Event) :
    (Runs.run (changeStep env) s events).2 = Runs.run (react env) s.2 events := by
  induction events generalizing s with
  | nil => rfl
  | cons event rest ih => exact ih (changeStep env s event)

theorem revision_stirKeeps : StirKeeps fun w : World => w.st.revision where
  render _ _ := rfl

/-- The revision counts completed windows, and nothing else. -/
theorem revision_react (w : World) (event : Event) : (react env w event).st.revision =
    if w.expires event then (w.st.revision + 1) % 256 else w.st.revision := by
  cases hexpires : w.expires event with
  | false => exact (revision_stirKeeps).react hexpires
  | true =>
      cases event with
      | fire handle =>
          simp only [World.expires, Option.any_eq_true, decide_eq_true_eq] at hexpires
          obtain ⟨t, ht, hjob⟩ := hexpires
          rw [react_fire ht hjob, if_pos rfl]
          have hkept : Frame (Keeps fun w : World => w.st.revision) (announce env) := by
            have htick := (revision_stirKeeps).toTickKeeps
            refine Frame.bind (Frame.look id) fun w => ?_
            refine Frame.bind ((revision_stirKeeps).toServeKeeps.publishReads _) fun _ => ?_
            refine Frame.bind (htick.toRefreshKeeps.refreshAdvertising false) fun _ => ?_
            exact Frame.bind htick.toScheduleKeeps.schedule fun _ => Frame.update fun _ => rfl
          refine left_attempt (I := fun u : World => u.st.revision = (w.st.revision + 1) % 256)
            (hkept.left_eq _) fun e u _ hu => ?_
          have hquiet : Frame (Keeps fun w : World => w.st.revision) (report env e) :=
            keeps_report (fun _ => rfl) e
          exact (hquiet.left_eq u).trans hu
      | _ => simp [World.expires] at hexpires

theorem revision_run (env : Env) (file : Option MarksFile) (events : List BoardEvent) :
    Holds (fun w => w.st.revision < 256)
      (Runs.run (Board.step env) (Board.powerOn file) events) := by
  refine holds_run (fun _ _ h => h) ?_ ?_ file events
  · intro opts b next hnext
    have hkeeps : InstallKeeps fun w : World => w.st.revision := { revision_stirKeeps with }
    have hframe : Frame (Keeps _) (install env opts) := hkeeps.install opts
    rw [show (left (install env opts) (b.swap next)).st.revision = next.revision from
      hframe.left_eq (b.swap next)]
    exact (built_of_buildNext hnext).revision
  · intro w event h
    rw [revision_react]
    split <;> omega

/-- What holds of windows at any moment. -/
structure Windowed (env : Env) (w : World) : Prop where
  single : (w.pending .publishChange).length ≤ 1
  opened : ∀ u, changed w = .ok () u → u.pending .publishChange ≠ []
  kept : ∀ t ∈ w.pending .publishChange, ∀ event, event ≠ .fire t.handle →
    t ∈ (react env w event).pending .publishChange
  counted : ∀ event, (react env w event).st.revision =
    if w.expires event then (w.st.revision + 1) % 256 else w.st.revision
  announced : ∀ t ∈ w.pending .publishChange, w.expires (.fire t.handle) = true ∧
    Announces env (w.clearTimeout t.handle) (react env w (.fire t.handle))

theorem Opened.opened (h : Opened w) (hrun : changed w = .ok () u) :
    u.pending .publishChange ≠ [] := by
  have hleft := left_ok hrun
  rcases changed_cases w with hsame | ⟨-, hset⟩
  · -- a call that returns without opening a window has found one open
    obtain rfl : w = u := hsame.symm.trans hleft
    refine h ?_
    unfold changed at hrun
    simp only [look_bind, id_eq] at hrun
    split at hrun
    · cases hrun
    split at hrun
    · assumption
    · rename_i hnone
      have hnext := congrArg (fun u : World => u.nextTimer) (EStateM.Result.ok.inj hrun).2
      simp [World.setChangeTimer, World.setTimeout] at hnext
  · rw [← hleft, hset, pending_setChangeTimer]
    simp

theorem Handled.kept (h : Handled w) {t : Timer} (ht : t ∈ w.pending .publishChange)
    {event : Event} (hother : event ≠ .fire t.handle) :
    t ∈ (Firmware.react env w event).pending .publishChange := by
  have hslot : .publishChange ∉ touched w event →
      t ∈ (Firmware.react env w event).pending .publishChange := by
    intro hjob
    have hkept : slot .publishChange (Firmware.react env w event) = slot .publishChange w :=
      slot_react h hjob
    rw [(Prod.mk.inj hkept).1]
    exact ht
  cases event with
  | changed =>
      show t ∈ (left changed w).pending .publishChange
      rcases changed_cases w with hsame | ⟨-, hset⟩
      · rw [hsame]
        exact ht
      · rw [hset, pending_setChangeTimer]
        exact List.mem_append_left _ ht
  | fire handle =>
      cases hfound : w.timers.find? (·.handle = handle) with
      | none => exact hslot (by simp [touched, hfound])
      | some t' =>
          refine hslot (touched_fire hfound fun hjob => hother ?_)
          obtain ⟨hmem, rfl⟩ := find?_handle hfound
          obtain ⟨hmem', hjob'⟩ := World.mem_pending.mp ht
          rw [h.eq_of_job hmem hmem' (hjob.trans hjob'.symm)]
  | _ => exact hslot (by simp [touched])

/-- After any history of the device that set it up, and in every run of events that follows: the
revision has gone up by the number of windows completed, and windows are kept. -/
theorem changes_counted_by_window (env : Env) (file : Option MarksFile)
    (earlier : List BoardEvent) (st : St) (events : List Event)
    (hst : (Runs.run (Board.step env) (Board.powerOn file) earlier).st = some st) :
    let start := (Runs.run (Board.step env) (Board.powerOn file) earlier).world st
    let s := Runs.run (changeStep env) (0, start) events
    s.2.st.revision = (st.revision + s.1) % 256 ∧ Windowed env s.2 := by
  intro start s
  have hcount : s.2.st.revision = (st.revision + s.1) % 256 := by
    have hstep : ∀ (s : ℕ × World) (event : Event), s.2.st.revision = (st.revision + s.1) % 256 →
        True → (changeStep env s event).2.st.revision =
          (st.revision + (changeStep env s event).1) % 256 := by
      intro s event hs _
      simp only [changeStep, revision_react]
      split <;> omega
    refine Runs.run_invariant hstep ?_ (Runs.Along.of_forall fun _ _ => trivial)
    exact (Nat.mod_eq_of_lt (revision_run env file earlier st hst)).symm
  refine ⟨hcount, ?_⟩
  -- the world reached is that of a device with a longer history
  have hboard : Runs.run (Board.step env) (Board.powerOn file) (earlier ++ events.map .on) =
      s.2.board := by
    rw [Runs.run_append, run_on hst, run_changeStep]
  have hholds : ∀ {Q : World → Prop}, Holds Q (Runs.run (Board.step env) (Board.powerOn file)
      (earlier ++ events.map .on)) → Q s.2 := by
    intro Q hall
    rw [hboard] at hall
    exact hall s.2.st rfl
  have hhandled : Handled s.2 := by
    have htidy := tidy_run env file (earlier ++ events.map .on)
    rwa [hboard] at htidy
  have hnumbered := hholds (numbered_run env file _)
  have haccess := hholds (accessible_run env file _)
  refine
    { single := ?_
      opened := fun u => (hholds (opened_run env file _)).opened
      kept := fun t ht event => hhandled.kept ht
      counted := revision_react s.2
      announced := ?_ }
  · by_cases hnone : s.2.pending .publishChange = []
    · simp [hnone]
    · obtain ⟨t, ht⟩ := List.exists_mem_of_ne_nil _ hnone
      obtain ⟨hmem, hjob⟩ := World.mem_pending.mp ht
      rw [← hjob, hhandled.pending_eq hmem]
      rfl
  · intro t ht
    obtain ⟨hmem, hjob⟩ := World.mem_pending.mp ht
    have hfound := hhandled.find?_eq hmem
    refine ⟨by simp [World.expires, hfound, hjob], ?_⟩
    exact announces_react hnumbered haccess hfound hjob

set_option maxRecDepth 4000 in
/-- Two calls in one window, and its expiry. -/
theorem changes_counted_by_window_sample :
    let s := Runs.run (changeStep sampleEnv) (0, plainBoard.world plainSt)
      [.changed, .changed, .fire 2]
    s.1 = 1 ∧ s.2.st.revision = (plainSt.revision + s.1) % 256 ∧ Windowed sampleEnv s.2 := by
  refine ⟨by decide, ?_⟩
  exact changes_counted_by_window sampleEnv none [.setup sampleOpts] plainSt
    [.changed, .changed, .fire 2] (Option.some_get _).symm

end BTHomeWritable.Firmware
