import BTHomeWritable.Device.Effects

/-!
# The advertising counter and its mark

What a run can do to the advertising side, said once.  `AdvFlash` is what holds
whether or not the device has power: every pair handed to the cipher lies
behind the mark on flash, on the unwrapped line.  `AdvLive` ties the RAM to the
same line, with the mark at most a stride ahead.  `AdvInv` is both.  They are
preserved by every program, cut at any statement, as long as nothing is sealed
while a failed save is outstanding (`AdvSynced`).

## Strategy

* A seal is followed through three states: the counter as it rests (`AdvInv`),
  counted past (`AdvBumped`, by `AdvInv.bump`), and drawn with the mark looked
  after (`AdvDrawn`, by `wp_noteAdvCounter`).  Only a drawn counter is handed to
  the cipher, and `AdvDrawn.noteSealed` is where it enters the history.
* Opening a write leaves this side alone: every world that `openWrite` can end
  in is a `SameAdvSide` of the one before (`wp_openWrite_adv`).
* `AdvInv.step` is the step lemma, over the four kinds of event.  Its condition
  `SealsSynced` is about numbers; `AdvInv.synced_iff` says that on this side the
  numbers agree only where the positions do.

`AdvFlash.pairs_nodup` turns ascending positions into distinct counters as long
as the life has not gone once round, and `sealed_pairs_nodup` is the result: with
a working flash no pair of info byte and counter is sealed twice.
-/

namespace BTHomeWritable.Device

open Statements

/-- The advertising side of the flash and of the history, in a life that began
at position `start`. -/
structure AdvFlash (start : ℕ) (w : World) : Prop where
  file : (loadMarks w.file).a = w.trail.advFile % 4294967296
  spent : start + w.trail.spent = w.trail.adv
  adv_le : w.trail.adv ≤ w.trail.advFile
  near : w.trail.advFile ≤ w.trail.adv + ADV_STRIDE
  counter : ∀ u ∈ w.sealed, u.counter = u.position % 4294967296
  start_le : ∀ u ∈ w.sealed, start ≤ u.position
  behind : ∀ u ∈ w.sealed, u.position < w.trail.adv
  covered : ∀ u ∈ w.sealed, counterIsAhead u.onFlash u.counter
  ascending : w.sealed.Pairwise fun u v => u.position < v.position

/-- The advertising side of the RAM. -/
structure AdvLive (w : World) (st : St) : Prop where
  counter : st.advCounter = w.trail.adv % 4294967296
  mark : st.advMark = w.trail.advMark % 4294967296
  lt_mark : w.trail.adv < w.trail.advMark
  mark_le : w.trail.advMark ≤ w.trail.adv + ADV_STRIDE
  file_le : w.trail.advFile ≤ w.trail.advMark

structure AdvInv (start : ℕ) (w : World) : Prop where
  flash : AdvFlash start w
  live : ∀ st ∈ w.st, AdvLive w st

/-- No failed save of the advertising mark is outstanding. -/
def AdvSynced (w : World) : Prop := ∀ st ∈ w.st, w.trail.advMark = w.trail.advFile

/-! ## Arithmetic of the mark -/

theorem reachedMark_positions {p q : ℕ} (hpq : p ≤ q) (hq : q ≤ p + ADV_STRIDE) :
    reachedMark (p % 4294967296) (q % 4294967296) ADV_STRIDE ↔ p = q := by
  simp only [reachedMark, decide_eq_true_eq]
  unfold toUint32
  unfold ADV_STRIDE at hq ⊢
  omega

/-! ## What the statements preserve -/

variable {A : Fate Fault → Prop} {ccm : Aead} {start : ℕ} {w w' : World} {st : St}

theorem AdvFlash.powerOff (h : AdvFlash start w) : AdvInv start w.powerOff where
  flash := { h with }
  live := by simp [World.powerOff]

@[simp] theorem writeJSON_trail_adv (w : World) : w.writeJSON.trail.adv = w.trail.adv := by
  unfold World.writeJSON
  cases w.st <;> rfl

@[simp] theorem writeJSON_sealed (w : World) : w.writeJSON.sealed = w.sealed := by
  unfold World.writeJSON
  cases w.st <;> rfl

/-- A save makes the file agree with the RAM. -/
theorem AdvInv.writeJSON (h : AdvInv start w) :
    AdvInv start w.writeJSON ∧ AdvSynced w.writeJSON := by
  cases hst : w.st with
  | none =>
      have hsame : w.writeJSON = w := by simp [World.writeJSON, hst]
      rw [hsame]
      exact ⟨h, by simp [AdvSynced, hst]⟩
  | some st =>
      have hlive : AdvLive w st := h.live st hst
      have hmark := hlive.mark
      have hlt := hlive.lt_mark
      simp only [World.writeJSON, hst]
      refine ⟨⟨{ h.flash with
          file := (congrArg Marks.a (loadMarks_object _ _)).trans (by rw [hmark, Nat.mod_mod])
          adv_le := hlt.le
          near := hlive.mark_le }, ?_⟩, fun _ _ => rfl⟩
      intro st' hst'
      obtain rfl : st = st' := by simpa using hst'
      exact { hlive with file_le := le_rfl }

/-- `w'` differs from `w` in nothing the advertising side is made of. -/
structure SameAdvSide (w w' : World) : Prop where
  file : w'.file = w.file
  adv : w'.trail.adv = w.trail.adv
  mark : w'.trail.advMark = w.trail.advMark
  saved : w'.trail.advFile = w.trail.advFile
  spent : w'.trail.spent = w.trail.spent
  sealed : w'.sealed = w.sealed
  st : ∀ st' ∈ w'.st, ∃ st ∈ w.st, st'.advCounter = st.advCounter ∧ st'.advMark = st.advMark

theorem Untouched.sameAdvSide (h : Untouched w w') : SameAdvSide w w' where
  file := h.file
  adv := by rw [h.trail]
  mark := by rw [h.trail]
  saved := by rw [h.trail]
  spent := by rw [h.trail]
  sealed := h.sealed
  st := by
    intro st' hst'
    obtain ⟨rejects, hst⟩ := h.st
    rw [hst] at hst'
    obtain ⟨st, hmem, rfl⟩ := Option.map_eq_some_iff.mp hst'
    exact ⟨st, hmem, rfl, rfl⟩

theorem sameAdvSide_counted (w : World) (counter : ℕ) : SameAdvSide w (counted w counter) :=
  ⟨rfl, rfl, rfl, rfl, rfl, rfl, by
    intro st' hst'
    obtain ⟨st, hmem, rfl⟩ := Option.map_eq_some_iff.mp hst'
    exact ⟨st, hmem, rfl, rfl⟩⟩

theorem sameAdvSide_marked (w : World) (counter : ℕ) : SameAdvSide w (marked w counter) :=
  ⟨rfl, rfl, rfl, rfl, rfl, rfl, by
    intro st' hst'
    obtain ⟨st₁, hmem₁, rfl⟩ := Option.map_eq_some_iff.mp hst'
    obtain ⟨st, hmem, rfl⟩ := Option.map_eq_some_iff.mp hmem₁
    exact ⟨st, hmem, rfl, rfl⟩⟩

theorem AdvInv.congr (h : AdvInv start w) (hw : SameAdvSide w w') : AdvInv start w' := by
  refine ⟨?_, ?_⟩
  · exact
      { file := by rw [hw.file, hw.saved]; exact h.flash.file
        spent := by rw [hw.spent, hw.adv]; exact h.flash.spent
        adv_le := by rw [hw.adv, hw.saved]; exact h.flash.adv_le
        near := by rw [hw.adv, hw.saved]; exact h.flash.near
        counter := by rw [hw.sealed]; exact h.flash.counter
        start_le := by rw [hw.sealed]; exact h.flash.start_le
        behind := by rw [hw.sealed, hw.adv]; exact h.flash.behind
        covered := by rw [hw.sealed]; exact h.flash.covered
        ascending := by rw [hw.sealed]; exact h.flash.ascending }
  · intro st' hst'
    obtain ⟨st, hst, hcounter, hmark⟩ := hw.st st' hst'
    have hlive := h.live st hst
    exact
      { counter := by rw [hcounter, hw.adv]; exact hlive.counter
        mark := by rw [hmark, hw.mark]; exact hlive.mark
        lt_mark := by rw [hw.adv, hw.mark]; exact hlive.lt_mark
        mark_le := by rw [hw.adv, hw.mark]; exact hlive.mark_le
        file_le := by rw [hw.saved, hw.mark]; exact hlive.file_le }

theorem AdvSynced.congr (h : AdvSynced w) (hw : SameAdvSide w w') : AdvSynced w' := by
  intro st' hst'
  obtain ⟨st, hst, -⟩ := hw.st st' hst'
  rw [hw.mark, hw.saved]
  exact h st hst

theorem AdvSynced.powerOff (w : World) : AdvSynced w.powerOff := by
  simp [AdvSynced, World.powerOff]

/-- The state between drawing position `p` and handing it to the cipher. -/
structure AdvDrawn (start p : ℕ) (w : World) : Prop where
  inv : AdvInv start w
  synced : AdvSynced w
  adv : w.trail.adv = p + 1
  start_le : start ≤ p
  earlier : ∀ u ∈ w.sealed, u.position < p

theorem AdvDrawn.noteSealed {p : ℕ} (h : AdvDrawn start p w) (info : UInt8) :
    AdvInv start (w.noteSealed info (p % 4294967296)) ∧
      AdvSynced (w.noteSealed info (p % 4294967296)) := by
  have hadv := h.adv
  have hflash := h.inv.flash
  have hle := hflash.adv_le
  have hnear := hflash.near
  have hcovered : counterIsAhead (loadMarks w.file).a (p % 4294967296) := by
    rw [hflash.file]
    refine ahead_of_behind (by omega) ?_
    unfold ADV_STRIDE at hnear
    omega
  refine ⟨⟨?_, fun st hst => { h.inv.live st hst with }⟩, h.synced⟩
  exact
    { hflash with
      counter := Runs.forall_mem_concat.mpr ⟨hflash.counter, by simp [hadv]⟩
      start_le := Runs.forall_mem_concat.mpr ⟨hflash.start_le, by simpa [hadv] using h.start_le⟩
      behind := Runs.forall_mem_concat.mpr ⟨hflash.behind, by simp [hadv, World.noteSealed]⟩
      covered := Runs.forall_mem_concat.mpr ⟨hflash.covered, hcovered⟩
      ascending := Runs.pairwise_concat.mpr
        ⟨hflash.ascending, fun u hu => by simpa [hadv] using h.earlier u hu⟩ }

/-! ## What the programs preserve -/

/-- The state between counting past position `p` and looking at the mark. -/
structure AdvBumped (start p : ℕ) (w : World) (st : St) : Prop where
  flash : AdvFlash start w
  counter : st.advCounter = w.trail.adv % 4294967296
  mark : st.advMark = w.trail.advMark % 4294967296
  le_mark : w.trail.adv ≤ w.trail.advMark
  mark_le : w.trail.advMark ≤ w.trail.adv + ADV_STRIDE
  synced : w.trail.advMark = w.trail.advFile
  adv : w.trail.adv = p + 1
  start_le : start ≤ p
  earlier : ∀ u ∈ w.sealed, u.position < p

theorem AdvInv.bump (h : AdvInv start w) (hsync : AdvSynced w) (hst : w.st = some st) :
    AdvBumped start w.trail.adv w.bumpAdvCounter
      { st with advCounter := toUint32 ((st.advCounter : ℤ) + 1) } := by
  have hlive := h.live st hst
  have hlt := hlive.lt_mark
  have hle := hlive.mark_le
  have hspent := h.flash.spent
  have hnear := h.flash.near
  have hfile : w.trail.advMark = w.trail.advFile := hsync st hst
  have hnext : toUint32 ((st.advCounter : ℤ) + 1) = (w.trail.adv + 1) % 4294967296 := by
    rw [hlive.counter]
    exact toUint32_mod_add w.trail.adv 1
  exact
    { flash :=
        { h.flash with
          spent := by simp only [World.bumpAdvCounter]; omega
          adv_le := by simp only [World.bumpAdvCounter]; omega
          near := by simp only [World.bumpAdvCounter]; omega
          behind := fun u hu => (h.flash.behind u hu).trans (Nat.lt_succ_self _) }
      counter := hnext
      mark := hlive.mark
      le_mark := hlt
      mark_le := hle.trans (by simp only [World.bumpAdvCounter]; omega)
      synced := hfile
      adv := rfl
      start_le := by omega
      earlier := h.flash.behind }

theorem wp_noteAdvCounter {p : ℕ} (h : AdvBumped start p w st) (hst : w.st = some st) :
    wp A (noteAdvCounter st.advCounter) (fun _ w' => AdvDrawn start p w')
      (fun _ w' => A (.fault .storage) ∧ AdvInv start w') (AdvFlash start) w := by
  have hle := h.le_mark
  have hmarkLe := h.mark_le
  unfold noteAdvCounter withSt
  refine wp_bind (wp_read ?_)
  simp only [hst]
  by_cases hreached : reachedMark st.advCounter st.advMark ADV_STRIDE
  · -- the counter stands on the mark: a new stride is claimed before anything is sealed
    have hmark : AdvInv start (w.setAdvMark st.advCounter) :=
      { flash := { h.flash with }
        live := by
          intro st' hst'
          obtain rfl : _ = st' := by simpa [World.setAdvMark, hst] using hst'
          exact
            { counter := h.counter
              mark := by
                rw [h.counter]
                exact toUint32_mod_add w.trail.adv ADV_STRIDE
              lt_mark := by simp [World.setAdvMark, ADV_STRIDE]
              mark_le := le_rfl
              file_le := by
                have := h.synced
                simp only [World.setAdvMark]
                omega } }
    rw [if_pos hreached]
    refine wp_bind (wp_stmt (wp_call ?_ (fun hfault => ⟨hfault, hmark⟩) hmark.flash) h.flash)
    exact
      { inv := hmark.writeJSON.1
        synced := hmark.writeJSON.2
        adv := by simpa [World.setAdvMark] using h.adv
        start_le := h.start_le
        earlier := by simpa [World.setAdvMark] using h.earlier }
  · -- short of the mark, which is on flash already
    have hne : w.trail.adv ≠ w.trail.advMark := by
      rwa [h.counter, h.mark, reachedMark_positions hle hmarkLe] at hreached
    have hlive : AdvLive w st :=
      { counter := h.counter
        mark := h.mark
        lt_mark := by omega
        mark_le := hmarkLe
        file_le := h.synced.ge }
    rw [if_neg hreached]
    refine wp_pure
      { inv := ⟨h.flash, ?_⟩
        synced := fun _ _ => h.synced
        adv := h.adv
        start_le := h.start_le
        earlier := h.earlier }
    intro st' hst'
    obtain rfl : st = st' := by simpa [hst] using hst'
    exact hlive

variable (ccm) in
/-- `seal`: the pair it hands to the cipher is new and behind the mark on flash. -/
theorem wp_sealUnder (pt : Bytes) (info : UInt8) (h : AdvInv start w) (hsync : AdvSynced w) :
    wp A (sealUnder ccm pt info) (fun _ w' => AdvInv start w' ∧ AdvSynced w')
      (fun _ w' => AdvInv start w' ∧ (A (.fault .storage) ∨ AdvSynced w')) (AdvFlash start) w := by
  unfold sealUnder withSt
  refine wp_bind (wp_read ?_)
  cases hst : w.st with
  | none => exact wp_raise ⟨h, Or.inr hsync⟩
  | some st =>
      have hbump := h.bump hsync hst
      have hcounter : st.advCounter = w.trail.adv % 4294967296 := (h.live st hst).counter
      have hnote := wp_noteAdvCounter (A := A) hbump (by simp [World.bumpAdvCounter, hst])
      refine wp_bind (wp_stmt ?_ h.flash)
      refine wp_bind (wp_mono hnote ?_ (fun _ _ hw => ⟨hw.2, Or.inl hw.1⟩) (fun _ hw => hw))
      intro _ w' hdrawn
      have hsealed := hdrawn.noteSealed info
      rw [hcounter]
      refine wp_bind (wp_stmt ?_ hdrawn.inv.flash)
      refine wp_bind (wp_call ?_ (fun _ => ⟨hsealed.1, Or.inr hsealed.2⟩) hsealed.1.flash)
      exact wp_pure hsealed

/-- Resuming from the mark on flash: what lies between is skipped, never drawn. -/
theorem AdvInv.swap (h : AdvInv start w) (opts : SetupOpts) :
    AdvInv start (w.swap opts (loadMarks w.file)) := by
  have hle := h.flash.adv_le
  have hspent := h.flash.spent
  refine ⟨?_, ?_⟩
  · exact
      { h.flash with
        spent := by
          simp only [World.swap]
          omega
        adv_le := le_rfl
        near := Nat.le_add_right _ _
        behind := fun u hu => (h.flash.behind u hu).trans_le hle }
  · intro st' hst'
    obtain rfl : _ = st' := by simpa [World.swap] using hst'
    exact
      { counter := h.flash.file
        mark := by
          show toUint32 (((loadMarks w.file).a : ℤ) + ADV_STRIDE) = _
          rw [h.flash.file]
          exact toUint32_mod_add w.trail.advFile ADV_STRIDE
        lt_mark := by simp [World.swap, ADV_STRIDE]
        mark_le := le_rfl
        file_le := Nat.le_add_right _ _ }

variable (ccm) in
theorem wp_publishAll (publishes : List (Bytes × UInt8)) (h : AdvInv start w)
    (hsync : AdvSynced w) :
    wp A (publishAll ccm publishes) (fun _ w' => AdvInv start w' ∧ AdvSynced w')
      (fun _ w' => AdvInv start w' ∧ (A (.fault .storage) ∨ AdvSynced w')) (AdvFlash start) w := by
  induction publishes generalizing w with
  | nil => exact wp_pure ⟨h, hsync⟩
  | cons head rest ih =>
      have hhead := wp_sealUnder (A := A) ccm head.1 head.2 h hsync
      refine wp_bind (wp_call ?_ (fun _ => ⟨h, Or.inr hsync⟩) h.flash)
      exact wp_bind (wp_mono hhead (fun _ _ hw => ih hw.1 hw.2) (fun _ _ hw => hw)
        (fun _ hw => hw))

variable (ccm) in
/-- `setup` claims its stride before it seals anything, so it needs no save to have worked
before. -/
theorem wp_setup (opts : SetupOpts) (h : AdvInv start w) :
    wp A (setup ccm opts) (fun _ w' => AdvInv start w' ∧ AdvSynced w')
      (fun _ w' => AdvInv start w' ∧ (A (.fault .storage) ∨ (AdvSynced w → AdvSynced w')))
      (AdvFlash start) w := by
  have hswap := h.swap opts
  have hpublish := wp_publishAll (A := A) ccm opts.publishes hswap.writeJSON.1
    hswap.writeJSON.2
  unfold setup
  refine wp_bind (wp_read (wp_bind (wp_call ?_ (fun _ => ⟨h, Or.inr id⟩) h.flash)))
  refine wp_bind (wp_stmt ?_ h.flash)
  refine wp_bind (wp_call ?_ (fun hfault => ⟨hswap, Or.inl hfault⟩) hswap.flash)
  refine wp_mono hpublish (fun _ _ hw => hw) ?_ (fun _ hw => hw)
  rintro e w' ⟨hinv, hfault | hsync⟩
  · exact ⟨hinv, Or.inl hfault⟩
  · -- the first save made the mark good, whatever was outstanding before
    exact ⟨hinv, Or.inr fun _ => hsync⟩

variable (ccm) in
theorem wp_openWrite_adv (pl : Bytes) (h : AdvInv start w) (hst : w.st = some st) :
    wp A (openWrite ccm pl)
      (fun _ w' => AdvInv start w' ∧ (AdvSynced w → AdvSynced w'))
      (fun _ w' => AdvInv start w' ∧ (AdvSynced w → AdvSynced w')) (AdvFlash start) w := by
  have hcounted := sameAdvSide_counted w (splitWrite pl).counter
  have hmarked := sameAdvSide_marked w (splitWrite pl).counter
  have hsaved := (h.congr hmarked).writeJSON
  refine wp_mono (wp_openWrite ccm pl hst) ?_ ?_ ?_
  · rintro result w' (⟨-, hrefused⟩ | ⟨-, -, ⟨-, rfl⟩ | ⟨-, rfl⟩⟩)
    · exact ⟨h.congr hrefused.sameAdvSide, fun hsync => hsync.congr hrefused.sameAdvSide⟩
    · exact ⟨h.congr hcounted, fun hsync => hsync.congr hcounted⟩
    · exact ⟨hsaved.1, fun _ => hsaved.2⟩
  · rintro e w' (hrefused | ⟨-, -, -, rfl⟩)
    · exact ⟨h.congr hrefused.sameAdvSide, fun hsync => hsync.congr hrefused.sameAdvSide⟩
    · exact ⟨h.congr hmarked, fun hsync => hsync.congr hmarked⟩
  · rintro w' (hrefused | ⟨-, rfl | ⟨-, rfl | rfl⟩⟩)
    · exact (h.congr hrefused.sameAdvSide).flash
    · exact (h.congr hcounted).flash
    · exact (h.congr hmarked).flash
    · exact hsaved.1.flash

/-! ## Runs -/

variable {l : Life}

/-- Nothing is sealed while a failed save of the advertising mark is outstanding. -/
def SealsSynced (l : Life) : Event → Prop
  | .seal _ _ _ => ∀ st ∈ l.world.st, st.advMark = (loadMarks l.world.file).a
  | _ => True

instance (l : Life) : DecidablePred (SealsSynced l)
  | .seal _ _ _ => inferInstanceAs (Decidable (∀ st ∈ l.world.st, _))
  | .setup _ _ | .write _ _ | .powerCut => inferInstanceAs (Decidable True)

/-- The RAM's mark is never more than a stride past the one on flash, so the numbers agree only
where the positions do. -/
theorem AdvInv.synced_iff (h : AdvInv start w) :
    AdvSynced w ↔ ∀ st ∈ w.st, st.advMark = (loadMarks w.file).a := by
  have hle := h.flash.adv_le
  have hnear := h.flash.near
  have hfile := h.flash.file
  refine ⟨fun hsync st hst => ?_, fun hsame st hst => ?_⟩
  · rw [(h.live st hst).mark, hfile, hsync st hst]
  · have hmark := (h.live st hst).mark
    have hmarkLe := (h.live st hst).mark_le
    have hfileLe := (h.live st hst).file_le
    have hnumbers := hsame st hst
    unfold ADV_STRIDE at hmarkLe
    omega

variable (ccm) in
theorem AdvInv.step (h : AdvInv start l.world) (e : Event) (hseals : SealsSynced l e) :
    AdvInv start (l.step ccm e).world ∧
      (FlashWorks e → AdvSynced l.world → AdvSynced (l.step ccm e).world) := by
  match e with
  | .setup opts script =>
      have hsetup := wp_setup (A := fun fate => fate ∈ script) ccm opts h
      rw [Life.step, rest_world]
      refine ⟨wp_afterwards (wp_mono hsetup (fun _ _ hw => hw.1) (fun _ _ hw => hw.1)
        (fun _ hw => hw)) (fun w' hw => hw.powerOff) (fun _ hfate => hfate), ?_⟩
      intro hflash hsync
      refine wp_afterwards (C := fun _ => True) (wp_mono hsetup (fun _ _ hw => hw.2) ?_ (by simp))
        (fun w' _ => AdvSynced.powerOff w') (fun _ hfate => hfate)
      rintro error w' ⟨-, hfault | hkept⟩
      · exact absurd rfl (hflash _ hfault)
      · exact hkept hsync
  | .seal pt info script =>
      -- a seal by itself goes by what the last save has left, which is what `hseals` is
      -- about
      have hsync₀ : AdvSynced l.world := h.synced_iff.mpr hseals
      have hseal := wp_sealUnder (A := fun fate => fate ∈ script) ccm pt info h hsync₀
      rw [Life.step, rest_world]
      refine ⟨wp_afterwards (wp_mono hseal (fun _ _ hw => hw.1) (fun _ _ hw => hw.1)
        (fun _ hw => hw)) (fun w' hw => hw.powerOff) (fun _ hfate => hfate), ?_⟩
      intro hflash hsync
      refine wp_afterwards (C := fun _ => True) (wp_mono hseal (fun _ _ hw => hw.2) ?_ (by simp))
        (fun w' _ => AdvSynced.powerOff w') (fun _ hfate => hfate)
      rintro error w' ⟨-, hfault | hkept⟩
      · exact absurd rfl (hflash _ hfault)
      · exact hkept
  | .write pl script =>
      rw [step_write_world]
      cases hst : l.world.st with
      | none =>
          rw [openWrite_powerOff ccm pl script hst]
          exact ⟨h, fun _ hsync => hsync⟩
      | some st =>
          have hopen := wp_openWrite_adv (A := fun _ => True) ccm pl h hst
          refine ⟨wp_afterwards (wp_mono hopen (fun _ _ hw => hw.1) (fun _ _ hw => hw.1)
            (fun _ hw => hw)) (fun w' hw => hw.powerOff) (by simp), ?_⟩
          intro hflash hsync
          exact wp_afterwards (C := fun _ => True) (wp_mono hopen (fun _ _ hw => hw.2 hsync)
            (fun _ _ hw => hw.2 hsync) (by simp)) (fun w' _ => AdvSynced.powerOff w') (by simp)
  | .powerCut =>
      rw [Life.step, rest_world]
      exact ⟨h.flash.powerOff, fun _ _ => AdvSynced.powerOff l.world⟩

theorem AdvInv.powerOn (file : Option MarksFile) :
    AdvInv (loadMarks file).a (World.powerOn file) where
  flash :=
    { file := (Nat.mod_eq_of_lt (loadMarks_lt file).2).symm
      spent := rfl
      adv_le := le_rfl
      near := Nat.le_add_right _ _
      counter := by simp [World.powerOn]
      start_le := by simp [World.powerOn]
      behind := by simp [World.powerOn]
      covered := by simp [World.powerOn]
      ascending := by simp [World.powerOn] }
  live := by simp [World.powerOn]

/-- The run lemma of the advertising side. -/
theorem AdvInv.run {events : List Event} (h : AdvInv start l.world)
    (halong : Runs.Along (Life.step ccm) SealsSynced l events) :
    AdvInv start (Runs.run (Life.step ccm) l events).world := by
  have hstep : ∀ (l : Life) (e : Event), AdvInv start l.world → SealsSynced l e →
      AdvInv start (l.step ccm e).world := fun _ e hinv he => (hinv.step ccm e he).1
  exact Runs.run_invariant hstep h halong

variable (ccm) in
/-- While no save fails, what is sealed is sealed in step with the flash, and the flash stays in
step with the RAM. -/
theorem AdvInv.step_synced (h : AdvInv start l.world) (hsync : AdvSynced l.world) {e : Event}
    (hflash : FlashWorks e) :
    AdvInv start (l.step ccm e).world ∧ AdvSynced (l.step ccm e).world := by
  have hseals : SealsSynced l e := by
    match e with
    | .seal _ _ _ => exact h.synced_iff.mp hsync
    | .setup _ _ | .write _ _ | .powerCut => trivial
  have hstep := h.step ccm e hseals
  exact ⟨hstep.1, hstep.2 hflash hsync⟩

theorem advInv_run_synced (ccm : Aead) (file : Option MarksFile) {events : List Event}
    (hflash : ∀ e ∈ events, FlashWorks e) :
    let w := (Runs.run (Life.step ccm) (Life.powerOn file) events).world
    AdvInv (loadMarks file).a w ∧ AdvSynced w := by
  have hsync : AdvSynced (Life.powerOn file).world := by
    simp [AdvSynced, Life.powerOn, World.powerOn]
  have hstep : ∀ (l : Life) (e : Event),
      AdvInv (loadMarks file).a l.world ∧ AdvSynced l.world → FlashWorks e →
      AdvInv (loadMarks file).a (l.step ccm e).world ∧ AdvSynced (l.step ccm e).world :=
    fun _ _ hinv he => hinv.1.step_synced ccm hinv.2 he
  exact Runs.run_invariant hstep ⟨AdvInv.powerOn file, hsync⟩ (Runs.Along.of_forall hflash)

/-- Fewer counters than the circle has, in ascending positions: none comes twice. -/
theorem AdvFlash.pairs_nodup (h : AdvFlash start w) (hspent : w.trail.spent < 4294967296) :
    (w.sealed.map fun u => (u.info, u.counter)).Nodup := by
  rw [List.nodup_iff_pairwise_ne, List.pairwise_map]
  refine h.ascending.imp_of_mem ?_
  intro u v hu hv hlt hsame
  have hcounters : u.counter = v.counter := congrArg Prod.snd hsame
  have hstart := h.start_le u hu
  have hbehind := h.behind v hv
  have htotal := h.spent
  -- two positions over one counter are a whole turn apart, and the life has not gone that far
  rw [h.counter u hu, h.counter v hv] at hcounters
  exact Circular.mod_ne_mod hlt (by omega) hcounters

/-- No pair of device-information byte and counter reaches the cipher twice, over every life of
a device whose flash works and that has not spent the whole circle. -/
theorem sealed_pairs_nodup (ccm : Aead) (file : Option MarksFile) (events : List Event)
    (hflash : ∀ e ∈ events, FlashWorks e)
    (hspent : (Runs.run (Life.step ccm) (Life.powerOn file) events).world.trail.spent < 2 ^ 32) :
    ((Runs.run (Life.step ccm) (Life.powerOn file) events).world.sealed.map
      fun u => (u.info, u.counter)).Nodup := by
  obtain ⟨hinv, -⟩ := advInv_run_synced ccm file hflash
  exact hinv.flash.pairs_nodup (by norm_num at hspent ⊢; exact hspent)

/-- Two boots over the wrap of the counter, with power going in the middle of a packet. -/
theorem sealed_pairs_nodup_sample :
    let events := [.setup sampleOpts [], .seal [0x00, 0x02] READ_INFO [],
      .write (sampleFrame 70) [], .seal [0x00, 0x03] DEV_INFO_ENC [.go, .cut],
      .setup sampleOpts [], .seal [0x00, 0x04] READ_INFO []]
    ((Runs.run (Life.step sampleCcm)
        (Life.powerOn (some (.object (some 5) (some 0xFFFFFFFF)))) events).world.sealed.map
      fun u => (u.info, u.counter)).Nodup :=
  sealed_pairs_nodup sampleCcm _ _ (by decide) (by decide +kernel)

end BTHomeWritable.Device
