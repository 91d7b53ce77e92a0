import BTHomeWritable.Device.Effects

/-!
# One flash write per stride

`noteAdvCounter` saves where the counter meets its mark on the circle of 2^32,
and puts the mark a stride further.  Between two saves the mark comes nearer by
one with every seal, so that the distance to it counts the seals since the last
save, wherever on the circle they are and whether or not the save went well.

`Approaching st since` is that law: the mark is `ADV_STRIDE - since` ahead.  One
seal moves `st` to `sealedState st` whatever throws in it (`st_sealUnder`), and
the law with it (`Approaching.seal`); `Approaching.savesNext_iff` says that the
branch is taken at the end of a stride and nowhere else.  The run lemma is
`Approaching.sealAll`.  `setup()` starts a stride (`setUp_st`), and
`afterwards_setup` says that the rest of it is seals like any others, so that
`one_save_per_stride` holds of every mark and every number of seals.
-/

namespace BTHomeWritable.Device

open Statements

/-- A call of `seal`, with the fates its statements meet. -/
structure SealCall where
  pt : Bytes
  info : UInt8
  script : List (Fate Fault)

/-- `noteAdvCounter` goes into its branch in the next `seal`. -/
def savesNext (st : St) : Bool :=
  reachedMark (toUint32 ((st.advCounter : ℤ) + 1)) st.advMark ADV_STRIDE

/-- `st` after a `seal`. -/
def sealedState (st : St) : St :=
  let counter := toUint32 ((st.advCounter : ℤ) + 1)
  { st with
    advCounter := counter
    advMark := if savesNext st then toUint32 ((counter : ℤ) + ADV_STRIDE) else st.advMark }

/-- `.bwctr` after a `seal` in which no save fails. -/
def sealedFile (st : St) (file : Option MarksFile) : Option MarksFile :=
  if savesNext st then some (.object (some st.writeMark) (some (sealedState st).advMark)) else file

variable (ccm : Aead)

/-- The device after the calls. -/
def sealAll (w : World) (calls : List SealCall) : World :=
  Runs.run (fun w c => afterwards (sealUnder ccm c.pt c.info w c.script)) w calls

/-- How many of the calls came after the last save, with `since` before them. -/
def sinceSave (st : St) (since : ℕ) : List SealCall → ℕ
  | [] => since
  | _ :: rest => sinceSave (sealedState st) (if savesNext st then 0 else since + 1) rest

/-- The counter is short of its mark by what is left of the stride. -/
structure Approaching (st : St) (since : ℕ) : Prop where
  since_lt : since < ADV_STRIDE
  distance : toUint32 ((st.advMark : ℤ) - st.advCounter) = ADV_STRIDE - since

variable {w : World} {st : St} {since a : ℕ}

/-! ## What one seal does -/

/-- With the power on, `seal` moves `st` the same way whatever throws in it. -/
theorem wp_sealUnder_st (pt : Bytes) (info : UInt8) (hst : w.st = some st) :
    wp (· ≠ .cut) (sealUnder ccm pt info) (fun _ w' => w'.st = some (sealedState st))
      (fun _ w' => w'.st = some (sealedState st)) (fun _ => False) w := by
  have hbump : w.bumpAdvCounter.st =
      some { st with advCounter := toUint32 ((st.advCounter : ℤ) + 1) } := by
    simp [World.bumpAdvCounter, hst]
  have hnote : wp (· ≠ .cut) (noteAdvCounter (toUint32 ((st.advCounter : ℤ) + 1)))
      (fun _ w' => w'.st = some (sealedState st)) (fun _ w' => w'.st = some (sealedState st))
      (fun _ => False) w.bumpAdvCounter := by
    unfold noteAdvCounter withSt
    refine wp_bind (wp_read ?_)
    simp only [hbump]
    -- the mark moves before the save, so a save that throws has moved it as well
    by_cases hnext : savesNext st = true
    · have hmarked : (w.bumpAdvCounter.setAdvMark (toUint32 ((st.advCounter : ℤ) + 1))).st =
          some (sealedState st) := by
        simp only [World.setAdvMark, hbump, sealedState, if_pos hnext, Option.map_some]
      have hsaved : (w.bumpAdvCounter.setAdvMark
          (toUint32 ((st.advCounter : ℤ) + 1))).writeJSON.st = some (sealedState st) := by
        simp only [World.writeJSON, hmarked]
      have hreached := hnext
      unfold savesNext at hreached
      rw [if_pos hreached]
      refine wp_bind (wp_stmt_of_fates ?_ (absurd rfl))
      exact wp_call_of_fates hsaved (fun _ => hmarked) (absurd rfl)
    · have hreached := hnext
      unfold savesNext at hreached
      rw [if_neg hreached]
      apply wp_pure
      simp only [hbump, sealedState, if_neg hnext]
  unfold sealUnder withSt
  refine wp_bind (wp_read ?_)
  simp only [hst]
  refine wp_bind (wp_stmt_of_fates ?_ (absurd rfl))
  refine wp_bind (wp_mono hnote ?_ (fun _ _ h => h) (fun _ h => h))
  intro _ w' hw'
  refine wp_bind (wp_stmt_of_fates ?_ (absurd rfl))
  refine wp_bind (wp_call_of_fates ?_ (fun _ => hw') (absurd rfl))
  exact wp_pure hw'

/-- Undisturbed, `seal` returns, and has saved in its branch and nowhere else. -/
theorem wp_sealUnder_file (pt : Bytes) (info : UInt8) (hst : w.st = some st) :
    wp (fun _ => False) (sealUnder ccm pt info) (fun _ w' => w'.file = sealedFile st w.file)
      (fun _ _ => False) (fun _ => False) w := by
  have hbump : w.bumpAdvCounter.st =
      some { st with advCounter := toUint32 ((st.advCounter : ℤ) + 1) } := by
    simp [World.bumpAdvCounter, hst]
  have hnote : wp (fun _ => False) (noteAdvCounter (toUint32 ((st.advCounter : ℤ) + 1)))
      (fun _ w' => w'.file = sealedFile st w.file) (fun _ _ => False) (fun _ => False)
      w.bumpAdvCounter := by
    unfold noteAdvCounter withSt
    refine wp_bind (wp_read ?_)
    simp only [hbump]
    by_cases hnext : savesNext st = true
    · have hreached := hnext
      unfold savesNext at hreached
      rw [if_pos hreached]
      refine wp_bind (wp_stmt_of_fates ?_ False.elim)
      refine wp_call_of_fates ?_ False.elim False.elim
      simp only [World.writeJSON, World.setAdvMark, hbump, Option.map_some, sealedFile,
        sealedState, if_pos hnext]
    · have hreached := hnext
      unfold savesNext at hreached
      rw [if_neg hreached]
      apply wp_pure
      simp only [sealedFile, if_neg hnext]
      rfl
  unfold sealUnder withSt
  refine wp_bind (wp_read ?_)
  simp only [hst]
  refine wp_bind (wp_stmt_of_fates ?_ False.elim)
  refine wp_bind (wp_mono hnote ?_ (fun _ _ h => h) (fun _ h => h))
  intro _ w' hw'
  refine wp_bind (wp_stmt_of_fates ?_ False.elim)
  refine wp_bind (wp_call_of_fates ?_ False.elim False.elim)
  exact wp_pure hw'

theorem sealUnder_done (pt : Bytes) (info : UInt8) (hst : w.st = some st) :
    ∃ value w', sealUnder ccm pt info w [] = .done value w' [] ∧
      w'.file = sealedFile st w.file := by
  have hfile := wp_sealUnder_file ccm pt info hst [] (by simp)
  cases hrun : sealUnder ccm pt info w [] with
  | done value w' rest =>
      rw [hrun] at hfile
      obtain rfl : rest = [] := List.eq_nil_iff_forall_not_mem.mpr hfile.2
      exact ⟨value, w', rfl, hfile.1⟩
  | threw e w' rest => exact absurd hfile (by simp [hrun])
  | cut w' => exact absurd hfile (by simp [hrun])

theorem st_sealUnder (c : SealCall) (hpower : .cut ∉ c.script) (hst : w.st = some st) :
    (afterwards (sealUnder ccm c.pt c.info w c.script)).st = some (sealedState st) := by
  have hmoved := wp_sealUnder_st ccm c.pt c.info hst c.script
    fun fate hfate hcut => hpower (hcut ▸ hfate)
  cases hrun : sealUnder ccm c.pt c.info w c.script with
  | done value w' rest =>
      rw [hrun] at hmoved
      exact hmoved.1
  | threw e w' rest =>
      rw [hrun] at hmoved
      exact hmoved
  | cut w' => exact absurd hmoved (by simp [hrun])

/-! ## The distance to the mark -/

section

variable {counter mark : ℕ}

/-- The next counter is at the mark where it was one short of it. -/
theorem toUint32_next_sub_lt_iff (hsince : since < ADV_STRIDE)
    (h : toUint32 ((mark : ℤ) - counter) = ADV_STRIDE - since) :
    toUint32 ((toUint32 ((counter : ℤ) + 1) : ℤ) - mark) < ADV_STRIDE ↔ since + 1 = ADV_STRIDE := by
  unfold toUint32 at h ⊢
  unfold ADV_STRIDE at *
  omega

theorem toUint32_sub_next (hsince : since + 1 < ADV_STRIDE)
    (h : toUint32 ((mark : ℤ) - counter) = ADV_STRIDE - since) :
    toUint32 ((mark : ℤ) - toUint32 ((counter : ℤ) + 1)) = ADV_STRIDE - (since + 1) := by
  unfold toUint32 at h ⊢
  unfold ADV_STRIDE at *
  omega

/-- A mark a stride past the counter, wrapped or not. -/
theorem toUint32_stride_sub (counter : ℕ) :
    toUint32 ((toUint32 ((counter : ℤ) + ADV_STRIDE) : ℤ) - counter) = ADV_STRIDE := by
  unfold toUint32 ADV_STRIDE
  omega

end

/-- At the end of the stride, and nowhere else in it, the branch is taken. -/
theorem Approaching.savesNext_iff (h : Approaching st since) :
    savesNext st = true ↔ since + 1 = ADV_STRIDE := by
  rw [savesNext, reachedMark, decide_eq_true_iff]
  exact toUint32_next_sub_lt_iff h.since_lt h.distance

theorem Approaching.seal (h : Approaching st since) :
    Approaching (sealedState st) (if savesNext st then 0 else since + 1) := by
  have hlt := h.since_lt
  by_cases hnext : savesNext st = true
  · rw [if_pos hnext]
    refine ⟨by decide, ?_⟩
    simp only [sealedState, if_pos hnext]
    exact toUint32_stride_sub _
  · have hshort : since + 1 ≠ ADV_STRIDE := fun heq => hnext (h.savesNext_iff.mpr heq)
    have hnear : since + 1 < ADV_STRIDE := by omega
    rw [if_neg hnext]
    refine ⟨hnear, ?_⟩
    simp only [sealedState, if_neg hnext]
    exact toUint32_sub_next hnear h.distance

/-! ## Any number of seals -/

theorem Approaching.sealAll (h : Approaching st since) {calls : List SealCall}
    (hpower : ∀ c ∈ calls, .cut ∉ c.script) (hst : w.st = some st) :
    ∃ st', (Device.sealAll ccm w calls).st = some st' ∧
      Approaching st' (sinceSave st since calls) := by
  induction calls generalizing w st since with
  | nil => exact ⟨st, hst, h⟩
  | cons c rest ih =>
      have hmoved := st_sealUnder ccm c (hpower c (by simp)) hst
      exact ih h.seal (fun c' hc' => hpower c' (List.mem_cons_of_mem _ hc')) hmoved

theorem afterwards_publishAll (publishes : List (Bytes × UInt8)) (hst : w.st = some st) :
    afterwards (publishAll ccm publishes w []) =
      sealAll ccm w (publishes.map fun p => ⟨p.1, p.2, []⟩) := by
  induction publishes generalizing w st with
  | nil => rfl
  | cons head rest ih =>
      obtain ⟨value, w', hdone, -⟩ := sealUnder_done ccm head.1 head.2 hst
      have hmoved := st_sealUnder ccm ⟨head.1, head.2, []⟩ (by simp) hst
      simp only [hdone, afterwards] at hmoved
      have hpublish : publishAll ccm (head :: rest) w [] = publishAll ccm rest w' [] := by
        rw [publishAll, Prog.bind_done (Prog.call_nil _ _ _ _)]
        exact Prog.bind_done hdone
      rw [hpublish, ih hmoved]
      simp only [sealAll, List.map_cons, Runs.run_cons, hdone, afterwards]

/-- The swap of `setup()` and its save, before anything is published. -/
def setUp (w : World) (opts : SetupOpts) : World := (w.swap opts (loadMarks w.file)).writeJSON

/-- What `setup()` leaves behind: the rest of it is the seals of what it publishes. -/
theorem afterwards_setup (w : World) (opts : SetupOpts) :
    afterwards (setup ccm opts w []) =
      sealAll ccm (setUp w opts) (opts.publishes.map fun p => ⟨p.1, p.2, []⟩) := by
  have hsaved : setup ccm opts w [] = publishAll ccm opts.publishes (setUp w opts) [] := rfl
  rw [hsaved]
  exact afterwards_publishAll ccm opts.publishes rfl

theorem setUp_st (w : World) (opts : SetupOpts) :
    ∃ st, (setUp w opts).st = some st ∧ st.advCounter = (loadMarks w.file).a ∧
      Approaching st 0 := by
  refine ⟨_, rfl, rfl, by decide, ?_⟩
  exact toUint32_stride_sub _

/-- From any mark on and after any number of seals the mark is one to a stride ahead, and the next
seal saves just if it completes a stride since `setup()` or the last save. -/
theorem one_save_per_stride (ccm : Aead) (w : World) (opts : SetupOpts) (calls : List SealCall)
    (hpower : ∀ c ∈ calls, .cut ∉ c.script) (pt : Bytes) (info : UInt8) :
    ∃ start st, (setUp w opts).st = some start ∧ (sealAll ccm (setUp w opts) calls).st = some st ∧
      1 ≤ toUint32 ((st.advMark : ℤ) - st.advCounter) ∧
      toUint32 ((st.advMark : ℤ) - st.advCounter) ≤ ADV_STRIDE ∧
      (savesNext st = true ↔ sinceSave start 0 calls + 1 = ADV_STRIDE) ∧
      sinceSave start 0 calls < ADV_STRIDE ∧
      (afterwards (sealUnder ccm pt info (sealAll ccm (setUp w opts) calls) [])).file =
        sealedFile st (sealAll ccm (setUp w opts) calls).file := by
  obtain ⟨start, hstart, -, happroaching⟩ := setUp_st w opts
  obtain ⟨st, hst, h⟩ := happroaching.sealAll ccm hpower hstart
  obtain ⟨value, w', hdone, hfile⟩ := sealUnder_done ccm pt info hst
  have hdistance := h.distance
  have hsince := h.since_lt
  refine ⟨start, st, hstart, hst, by omega, by omega, h.savesNext_iff, hsince, ?_⟩
  rw [hdone]
  exact hfile

/-- A device whose mark has wrapped, over a seal in which the cipher throws. -/
theorem one_save_per_stride_sample :
    let w := setUp (World.powerOn (some (.object (some 0) (some 4294967290))))
      ⟨List.replicate 16 0, List.replicate 6 0, false, []⟩
    let calls : List SealCall := [⟨[0x01], 0x41, [.go, .go, .fault .aes]⟩]
    let sealed := sealAll (Aead.tagging [] []) w calls
    ∃ start st, w.st = some start ∧ sealed.st = some st ∧
      1 ≤ toUint32 ((st.advMark : ℤ) - st.advCounter) ∧
      toUint32 ((st.advMark : ℤ) - st.advCounter) ≤ ADV_STRIDE ∧
      (savesNext st = true ↔ sinceSave start 0 calls + 1 = ADV_STRIDE) ∧
      sinceSave start 0 calls < ADV_STRIDE ∧
      (afterwards (sealUnder (Aead.tagging [] []) [0x02] 0x41 sealed [])).file =
        sealedFile st sealed.file :=
  one_save_per_stride _ _ _ _ (by simp) _ _

end BTHomeWritable.Device
